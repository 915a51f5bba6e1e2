import BranchPrediction.Proofs.Isolation.SlotView
/-!
# Branches that cannot interfere

A bimodal predictor and a target cache are both indexed by address alone, so a
branch learns from the branches of its own slots and from no others. The two
tables may differ in size. Two branches that are apart in the smaller one are
apart in the larger one too, so the slot of the smaller table is what decides.

Everything that was told of other slots can be forgotten: two runs that bring
the same branches to the slot of a branch, in the same order, end in the same
prediction for it. The target of a branch of the same slot may push out another
one, but that happens in both runs.

## Main definitions

* `Config.collisionBits`: the width of the narrowest index field

## Main results

* `TargetCache.lookup_foldl_congr`, `TargetCache.predict_foldl_congr`: caches
* `PredictionUnit.predict_eq_of_branchesAt_eq`: units without a history
-/

namespace BranchPrediction

/-- What agrees in a slot agrees in the slot of every larger table. -/
theorem branchesAt_congr_of_le {narrow wide : Nat} (le : narrow ≤ wide) {pc : Addr}
    {trace trace' : List Branch}
    (same : branchesAt narrow pc trace = branchesAt narrow pc trace') :
    branchesAt wide pc trace = branchesAt wide pc trace' := by
  rw [← branchesAt_branchesAt le pc trace, same, branchesAt_branchesAt le]

/-- A branch of another slot can be left out. -/
theorem branchesAt_insert {n : Nat} {pc : Addr} {br : Branch}
    (other : pc.sameSlot n br.pc = false) (first second : List Branch) :
    branchesAt n pc (first ++ br :: second) = branchesAt n pc (first ++ second) := by
  rw [branchesAt_append, branchesAt_cons_of_other second other, ← branchesAt_append]

/-! ## Target caches -/

section Tables

variable {pc : Addr} {trace trace' : List Branch}

theorem CounterBuffer.held_foldl_congr {b : CounterBuffer} (sound : b.Sound)
    (same : branchesAt b.indexBits pc trace = branchesAt b.indexBits pc trace') :
    (trace.foldl update b).held pc = (trace'.foldl update b).held pc :=
  lawful_slotView.view_foldl_congr sound same

theorem TargetBuffer.lookup_foldl_congr {b : TargetBuffer} (sound : b.Sound)
    (same : branchesAt b.indexBits pc trace = branchesAt b.indexBits pc trace') :
    (trace.foldl update b).lookup pc = (trace'.foldl update b).lookup pc :=
  lawful_slotView.view_foldl_congr sound same

end Tables

namespace TargetCache

/-- The width of the index field of a cache. -/
def indexBits : TargetCache → Nat
  | counterIntegrated b => b.indexBits
  | targetOnly b => b.indexBits

theorem indexBits_fresh (c : Config) : (fresh c).indexBits = c.btbIndexBits := by
  unfold fresh
  split <;> rfl

variable {t : TargetCache} {pc : Addr} {trace trace' : List Branch}

/-- The target that is kept for a branch depends on the branches of its slot. -/
theorem lookup_foldl_congr (sound : t.Sound)
    (same : branchesAt t.indexBits pc trace = branchesAt t.indexBits pc trace') :
    (trace.foldl update t).lookup pc = (trace'.foldl update t).lookup pc := by
  cases t with
  | counterIntegrated b =>
    rw [foldl_counterIntegrated, foldl_counterIntegrated, lookup, lookup,
      CounterBuffer.lookup_eq_held, CounterBuffer.lookup_eq_held,
      CounterBuffer.held_foldl_congr sound same]
  | targetOnly b =>
    rw [foldl_targetOnly, foldl_targetOnly]
    exact TargetBuffer.lookup_foldl_congr sound same

/-- And so does the prediction of the cache alone. -/
theorem predict_foldl_congr (sound : t.Sound)
    (same : branchesAt t.indexBits pc trace = branchesAt t.indexBits pc trace') :
    (trace.foldl update t).predict pc = (trace'.foldl update t).predict pc := by
  cases t with
  | counterIntegrated b =>
    rw [foldl_counterIntegrated, foldl_counterIntegrated, predict, predict,
      CounterBuffer.predict_eq_held, CounterBuffer.predict_eq_held,
      CounterBuffer.held_foldl_congr sound same]
  | targetOnly b =>
    rw [foldl_targetOnly, foldl_targetOnly]
    exact congrArg (Prediction.ofTarget? pc) (TargetBuffer.lookup_foldl_congr sound same)

end TargetCache

/-! ## Units without a history -/

/-- The direction that is predicted for a branch depends on the branches of its
counter. -/
theorem Bimodal.predict_foldl_congr {c : Config} {p : Bimodal} (sound : p.Sound c) {pc : Addr}
    {trace trace' : List Branch}
    (same : branchesAt p.indexBits pc trace = branchesAt p.indexBits pc trace') :
    (trace.foldl update p).predict pc = (trace'.foldl update p).predict pc :=
  congrArg Counter.predictsTaken ((lawful_slotView c).view_foldl_congr sound same)

/-- The width of the narrowest index field that a unit without a history reads.
Branches that agree in it may share a slot, other branches cannot. -/
def Config.collisionBits (c : Config) : Nat :=
  match c.kind with
  | .bimodal => min c.indexBits c.btbIndexBits
  | _ => c.btbIndexBits

namespace PredictionUnit

variable {c : Config} {pc : Addr} {trace trace' : List Branch}

theorem predict_after_fresh_congr (valid : c.Valid) (kind : c.kind = .bimodal ∨ c.kind = .btb)
    (same : branchesAt c.collisionBits pc trace = branchesAt c.collisionBits pc trace') :
    ((fresh c).after trace).predict pc = ((fresh c).after trace').predict pc := by
  have sound := TargetCache.sound_fresh valid
  rcases kind with bimodal | alone
  · have present : (fresh c).direction = some (.bimodal (.fresh c)) := by
      simp only [fresh, DirectionPredictor.fresh, bimodal]
    have width : c.collisionBits = min c.indexBits c.btbIndexBits := by
      simp only [Config.collisionBits, bimodal]
    -- neither table is smaller than the one whose slots are compared
    have counters : branchesAt c.indexBits pc trace = branchesAt c.indexBits pc trace' :=
      branchesAt_congr_of_le (by omega) same
    have targets : branchesAt (TargetCache.fresh c).indexBits pc trace =
        branchesAt (TargetCache.fresh c).indexBits pc trace' := by
      rw [TargetCache.indexBits_fresh]
      exact branchesAt_congr_of_le (by omega) same
    apply predict_congr (direction_after_of_some present trace)
      (direction_after_of_some present trace')
    · rw [DirectionPredictor.foldl_bimodal, DirectionPredictor.foldl_bimodal]
      exact Bimodal.predict_foldl_congr (Bimodal.sound_fresh valid) counters
    · rw [DirectionPredictor.foldl_bimodal, DirectionPredictor.foldl_bimodal]
      rfl
    · rw [targets_after, targets_after]
      exact TargetCache.lookup_foldl_congr sound targets
  · have absent : (fresh c).direction = none := by
      simp only [fresh, DirectionPredictor.fresh, alone]
    have width : c.collisionBits = (TargetCache.fresh c).indexBits := by
      simp only [Config.collisionBits, alone, TargetCache.indexBits_fresh]
    rw [predict_after_of_alone absent, predict_after_of_alone absent]
    rw [width] at same
    exact TargetCache.predict_foldl_congr sound same

/-- **Other slots do not matter.** A fresh unit without a history predicts the
same for a branch after any two runs that bring the same branches to its slot,
in the same order. So branches of other slots can be put in anywhere, and left
out anywhere, which moves them as well. -/
theorem predict_eq_of_branchesAt_eq (accepted : c.validate = .ok ())
    (kind : c.kind = .bimodal ∨ c.kind = .btb) :
    ∃ u, PredictionUnit.ofConfig c = .ok u ∧
      (∀ (pc : Addr) (trace trace' : List Branch),
        branchesAt c.collisionBits pc trace = branchesAt c.collisionBits pc trace' →
          (u.after trace).predict pc = (u.after trace').predict pc) ∧
      ∀ (pc : Addr) (br : Branch), pc.sameSlot c.collisionBits br.pc = false →
        ∀ first second : List Branch,
          (u.after (first ++ br :: second)).predict pc = (u.after (first ++ second)).predict pc := by
  have valid := (Config.validate_eq_ok_iff c).mp accepted
  refine ⟨fresh c, ofConfig_of_valid valid, ?_, ?_⟩
  · intro pc trace trace' same
    exact predict_after_fresh_congr valid kind same
  · intro pc br other first second
    exact predict_after_fresh_congr valid kind (branchesAt_insert other first second)

/-- A bimodal unit with four counters and a target cache of two slots. -/
def halvedTargets : Config :=
  { kind := .bimodal, entries := 4, btbEntries := 2, targetCache := .counterIntegrated }

/-- A branch learns that it is taken, then loses its target to a branch with
another counter. -/
def takenOver : List Branch :=
  [⟨.ofNat 0x1000, .ofNat 0x40, true⟩, ⟨.ofNat 0x1008, .ofNat 0x80, true⟩]

/-- The same with branches of the other slot in between. -/
def interleaved : List Branch :=
  [⟨.ofNat 0x1004, .ofNat 0xC0, true⟩, ⟨.ofNat 0x1000, .ofNat 0x40, true⟩,
    ⟨.ofNat 0x100C, .ofNat 0xC0, true⟩, ⟨.ofNat 0x1008, .ofNat 0x80, true⟩,
    ⟨.ofNat 0x1004, .ofNat 0xC0, false⟩]

/-- Either way it is predicted taken, with no target to go to. -/
theorem predict_eq_of_branchesAt_eq_interleaved :
    halvedTargets.validate = .ok () ∧
      branchesAt halvedTargets.collisionBits (.ofNat 0x1000) interleaved = takenOver ∧
      ((fresh halvedTargets).after interleaved).predict (.ofNat 0x1000) =
        ((fresh halvedTargets).after takenOver).predict (.ofNat 0x1000) ∧
      ((fresh halvedTargets).after takenOver).predict (.ofNat 0x1000) =
        .jump (Addr.ofNat 0x1000).next := by
  have kept : branchesAt halvedTargets.collisionBits (.ofNat 0x1000) interleaved = takenOver := by
    decide
  have whole : branchesAt halvedTargets.collisionBits (.ofNat 0x1000) takenOver = takenOver := by
    decide
  obtain ⟨u, built, same, -⟩ := predict_eq_of_branchesAt_eq (c := halvedTargets) rfl (.inl rfl)
  obtain rfl : fresh halvedTargets = u := Except.ok.inj built
  exact ⟨rfl, kept, same _ _ _ (kept.trans whole.symm), by decide⟩

end PredictionUnit

end BranchPrediction
