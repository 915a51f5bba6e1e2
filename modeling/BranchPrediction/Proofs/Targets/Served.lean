import BranchPrediction.Proofs.Targets.Containment
/-!
# Where a predicted address comes from

A unit that predicts anything but the following instruction serves a target
that it keeps, in the private buffer of its direction predictor or in its
target cache. Both hold the last taken branch of a word or nothing for it, so
the address served is the target of the most recent taken branch at that word:
never the target of another branch that shares a slot, nor an earlier target of
the same branch, nor one that has left the unit in the meantime.

## Main definitions

* `PredictionUnit.storedTarget`: the target that a unit keeps for a branch

## Main results

* `PredictionUnit.stored_of_address_ne`: only stored targets are served
* `PredictionUnit.address_after_eq_target`: a served target is the last one
-/

namespace BranchPrediction

/-! ## Private buffers -/

namespace DirectionPredictor

/-- The target buffer of a direction predictor, if it has one of its own. -/
def buffer? : DirectionPredictor → Option TargetBuffer
  | gatedGShare p => some p.buffer
  | _ => none

theorem predictTarget_eq (d : DirectionPredictor) (pc : Addr) :
    d.predictTarget pc = d.buffer?.bind (·.lookup pc) := by
  cases d <;> rfl

theorem buffer?_foldl (d : DirectionPredictor) (trace : List Branch) :
    (trace.foldl update d).buffer? = d.buffer?.map fun b => trace.foldl .update b := by
  induction trace generalizing d with
  | nil => exact Option.map_id'.symm
  | cons br trace ih =>
    rw [List.foldl_cons, ih]
    cases d <;> rfl

theorem Sound.buffer {c : Config} {d : DirectionPredictor} (sound : d.Sound c) {b : TargetBuffer}
    (present : d.buffer? = some b) : b.Sound := by
  cases d with
  | gatedGShare p =>
    cases present
    exact GatedGShare.Sound.buffer sound
  | bimodal p => cases present
  | gshare p => cases present
  | twoLevel p => cases present
  | perceptron p => cases present

theorem predictTarget_fresh {c : Config} {d : DirectionPredictor}
    (built : DirectionPredictor.fresh c = some d) (pc : Addr) : d.predictTarget pc = none :=
  of_fresh (P := fun d => d.predictTarget pc = none) rfl (fun _ _ => rfl)
    (TargetBuffer.lookup_fresh c.btbEntries pc) rfl rfl built

/-- A private target held after a run, if none was held before, is that of the
last taken branch of the word. -/
theorem lastTaken_of_predictTarget_foldl {c : Config} {d : DirectionPredictor}
    (sound : d.Sound c) {pc target : Addr} (absent : d.predictTarget pc = none)
    {trace : List Branch} (found : (trace.foldl update d).predictTarget pc = some target) :
    ∃ br, lastTaken pc.sameWord trace = some br ∧ br.target = target := by
  rw [predictTarget_eq] at absent found
  rw [buffer?_foldl] at found
  cases present : d.buffer? with
  | none =>
    rw [present] at found
    cases found
  | some b =>
    rw [present] at absent found
    exact TargetBuffer.lastTaken_of_lookup_foldl (sound.buffer present) absent found

end DirectionPredictor

/-! ## Predictions of the cache alone -/

theorem Prediction.eq_of_ofTarget?_address_ne {pc : Addr} {t : Option Addr}
    (away : (Prediction.ofTarget? pc t).address ≠ pc.next) :
    (Prediction.ofTarget? pc t).taken = true ∧ t = some (Prediction.ofTarget? pc t).address := by
  cases t with
  | some target => exact ⟨rfl, rfl⟩
  | none => exact absurd rfl away

theorem TargetCache.stored_of_address_ne {t : TargetCache} {pc : Addr}
    (away : (t.predict pc).address ≠ pc.next) :
    (t.predict pc).taken = true ∧ t.lookup pc = some (t.predict pc).address := by
  cases t with
  | counterIntegrated b =>
    obtain ⟨taken, served⟩ := Prediction.eq_of_ofTarget?_address_ne away
    obtain ⟨e, kept, target⟩ := Option.map_eq_some_iff.mp served
    exact ⟨taken, Option.map_eq_some_iff.mpr ⟨e, (Option.filter_eq_some_iff.mp kept).1, target⟩⟩
  | targetOnly b => exact Prediction.eq_of_ofTarget?_address_ne away

/-! ## The unit -/

namespace PredictionUnit

/-- The target that a unit keeps for the branch at `pc`: that of the direction
predictor, else the cached one. -/
def storedTarget (u : PredictionUnit) (pc : Addr) : Option Addr :=
  (u.direction.bind (·.predictTarget pc)).or (u.targets.lookup pc)

theorem storedTarget_eq_none_iff {u : PredictionUnit} {pc : Addr} :
    u.storedTarget pc = none ↔
      (∀ d, u.direction = some d → d.predictTarget pc = none) ∧ u.targets.lookup pc = none := by
  rw [storedTarget, Option.or_eq_none_iff, Option.bind_eq_none_iff]

/-- A direction predictor decides, and what is predicted taken goes to the
target that the unit keeps. -/
theorem predict_eq_of_direction {u : PredictionUnit} {d : DirectionPredictor}
    (present : u.direction = some d) (pc : Addr) :
    u.predict pc =
      if d.predict pc then .jump ((u.storedTarget pc).getD pc.next) else .fallThrough pc := by
  simp only [predict, targetOf, storedTarget, present, Option.bind_some]

/-- An address other than the following instruction is predicted for taken
branches only, and it is stored. -/
theorem stored_of_address_ne {u : PredictionUnit} {pc : Addr}
    (away : (u.predict pc).address ≠ pc.next) :
    (u.predict pc).taken = true ∧ u.storedTarget pc = some (u.predict pc).address := by
  unfold predict at away ⊢
  cases present : u.direction with
  | none =>
    rw [present] at away
    obtain ⟨taken, served⟩ := TargetCache.stored_of_address_ne away
    refine ⟨taken, ?_⟩
    rw [storedTarget, present]
    exact served
  | some d =>
    simp only [present] at away ⊢
    by_cases taken : d.predict pc = true
    · rw [if_pos taken] at away ⊢
      refine ⟨rfl, ?_⟩
      -- the unit asks for the target in the order in which it is stored
      have address : (Prediction.jump (u.targetOf d pc)).address =
          (u.storedTarget pc).getD pc.next := by
        rw [storedTarget, present]
        rfl
      rw [address] at away ⊢
      cases stored : u.storedTarget pc with
      | some target => rfl
      | none =>
        rw [stored] at away
        exact absurd rfl away
    · rw [if_neg taken] at away
      exact absurd rfl away

/-- A target kept after a run, if none was kept before, is that of the last
taken branch of the word. -/
theorem lastTaken_of_storedTarget_after {c : Config} {u : PredictionUnit} (sound : u.Sound c)
    {pc target : Addr} (absent : u.storedTarget pc = none) {trace : List Branch}
    (found : (u.after trace).storedTarget pc = some target) :
    ∃ br, lastTaken pc.sameWord trace = some br ∧ br.target = target := by
  obtain ⟨noPrivate, noCached⟩ := storedTarget_eq_none_iff.mp absent
  rw [storedTarget, direction_after, targets_after, Option.or_eq_some_iff] at found
  rcases found with priv | ⟨-, cached⟩
  · obtain ⟨final, final_eq, held⟩ := Option.bind_eq_some_iff.mp priv
    obtain ⟨d, present, rfl⟩ := Option.map_eq_some_iff.mp final_eq
    exact DirectionPredictor.lastTaken_of_predictTarget_foldl (sound.direction d present)
      (noPrivate d present) held
  · exact TargetCache.lastTaken_of_lookup_foldl sound.targets noCached cached

theorem storedTarget_fresh (c : Config) (pc : Addr) : (fresh c).storedTarget pc = none := by
  rw [storedTarget_eq_none_iff]
  constructor
  · intro d built
    exact DirectionPredictor.predictTarget_fresh built pc
  · change (TargetCache.fresh c).lookup pc = none
    unfold TargetCache.fresh
    split
    · exact Option.map_eq_none_iff.mpr (CounterBuffer.lookup_fresh c.btbEntries pc)
    · exact TargetBuffer.lookup_fresh c.btbEntries pc

/-- **A served target is the last one.** After any run of a fresh unit, an
address other than the following instruction is predicted for taken branches
only. It is then the target of the most recent taken branch of the word, and
that branch resolved after every moment at which the unit kept no target for
it, such as the moment its slot was taken over or emptied. -/
theorem address_after_eq_target {c : Config} (accepted : c.validate = .ok ()) :
    ∃ u, PredictionUnit.ofConfig c = .ok u ∧ ∀ (trace : List Branch) (pc : Addr),
      let p := (u.after trace).predict pc
      p.address ≠ pc.next →
        p.taken = true ∧ ∃ br, lastTaken pc.sameWord trace = some br ∧ p.address = br.target ∧
          ∀ first second, trace = first ++ second → (u.after first).storedTarget pc = none →
            lastTaken pc.sameWord second = some br := by
  have valid := (Config.validate_eq_ok_iff c).mp accepted
  refine ⟨fresh c, ?_, fun trace pc => ?_⟩
  · rw [ofConfig_eq, accepted]
    rfl
  · intro p away
    obtain ⟨taken, stored⟩ := stored_of_address_ne away
    obtain ⟨br, last, target⟩ := lastTaken_of_storedTarget_after (sound_fresh valid)
      (storedTarget_fresh c pc) stored
    refine ⟨taken, br, last, target.symm, ?_⟩
    rintro first second rfl absent
    rw [after_append] at stored
    obtain ⟨later, last', -⟩ := lastTaken_of_storedTarget_after
      ((sound_fresh valid).after valid first) absent stored
    -- the last taken branch of a part is the last one of the whole
    rw [lastTaken_append, last', Option.some_or] at last
    rw [last', last]

/-- A unit whose target cache decides alone, with a single slot. -/
def oneSlot : Config :=
  { kind := .btb, btbEntries := 1, targetCache := .counterIntegrated }

/-- A branch that lost the only slot to another one and won it back. -/
def regained : List Branch :=
  [⟨.ofNat 0x1000, .ofNat 0x40, true⟩, ⟨.ofNat 0x2000, .ofNat 0x80, true⟩,
    ⟨.ofNat 0x1000, .ofNat 0xC0, true⟩]

/-- It is served its own newer target. -/
theorem address_after_eq_target_regained :
    oneSlot.validate = .ok () ∧
      ((fresh oneSlot).after regained).predict (.ofNat 0x1000) = .jump (.ofNat 0xC0) ∧
      ∃ br, lastTaken (Addr.ofNat 0x1000).sameWord regained = some br ∧
        br.target = .ofNat 0xC0 := by
  have served : ((fresh oneSlot).after regained).predict (.ofNat 0x1000) =
      .jump (.ofNat 0xC0) := by decide
  refine ⟨rfl, served, ?_⟩
  obtain ⟨u, built, last⟩ := address_after_eq_target (c := oneSlot) rfl
  obtain rfl : fresh oneSlot = u := Except.ok.inj built
  obtain ⟨-, br, found, target, -⟩ := last regained (.ofNat 0x1000) (by rw [served]; decide)
  rw [served] at target
  exact ⟨br, found, target.symm⟩

end PredictionUnit

end BranchPrediction
