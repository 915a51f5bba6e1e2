import BranchPrediction.Config.Preset
import BranchPrediction.Proofs.Steady.Targets
/-!
# Giving up a branch

A unit without a direction predictor predicts what its target cache advises, and
the two caches differ in whether they ever give a branch up.

The counters of a cache stand at most two steps away from not taken. So two
resolutions as not taken are enough, whatever the cache held before and whatever
targets were reported with them.

A cache without counters has no opinion about the direction. It advises taken for
every branch that it holds, and a branch that is not taken leaves it as it was. A
branch that was taken once is predicted taken for as long as it keeps its slot,
however often it falls through in the meantime.

## Main definitions

* `Config.GivesUp`: two resolutions as not taken are enough for the unit

## Main results

* `CounterBuffer.Sound.predict_after_two`: what counters make of two such branches
* `TargetBuffer.foldl_of_not_taken`: what a buffer without them makes of any number
* `Config.givesUp_iff`: a unit without a direction predictor gives branches up if
  and only if its cache has counters
* `Config.not_givesUp_plain`: the plain configuration of such a unit does not
-/

namespace BranchPrediction

/-! ## Caches with counters -/

/-- Two resolutions as not taken are enough for every state of a buffer. Their
targets do not matter. -/
theorem CounterBuffer.Sound.predict_after_two {b : CounterBuffer} (sound : b.Sound)
    (pc first second : Addr) :
    ((b.update ⟨pc, first, false⟩).update ⟨pc, second, false⟩).predict pc = .fallThrough pc := by
  let once := b.update ⟨pc, first, false⟩
  let twice := once.update ⟨pc, second, false⟩
  have far : b.stepsTo pc false ≤ 2 := CounterEntry.stepsTo_le (sound.counters _) _ _
  have near : once.stepsTo pc false = b.stepsTo pc false - 1 :=
    stepsTo_update_self sound ⟨pc, first, false⟩
  have there : twice.stepsTo pc false = once.stepsTo pc false - 1 :=
    stepsTo_update_self (sound.update _) ⟨pc, second, false⟩
  have direction : (twice.predict pc).taken = false := by
    rw [taken_predict_eq_iff]
    omega
  -- a prediction of not taken does not look at the stored target
  have stored : false = true → (twice.lookup pc).map (·.target) = some first := nofun
  exact predict_eq_of_lookup direction stored

/-! ## Caches without counters -/

namespace TargetBuffer

theorem update_of_not_taken (b : TargetBuffer) {br : Branch} (notTaken : br.taken = false) :
    b.update br = b := by
  rw [update, notTaken]
  rfl

/-- Branches that are not taken leave no trace. -/
theorem foldl_of_not_taken (b : TargetBuffer) {trace : List Branch}
    (notTaken : ∀ br ∈ trace, br.taken = false) : trace.foldl update b = b := by
  induction trace with
  | nil => rfl
  | cons br trace ih =>
    rw [List.foldl_cons, update_of_not_taken b (notTaken br List.mem_cons_self)]
    exact ih fun later member => notTaken later (List.mem_cons_of_mem _ member)

/-- A branch that was taken is predicted taken, however often it falls through
afterwards. -/
theorem Sound.predict_after_taken {b : TargetBuffer} (sound : b.Sound) (br : Branch)
    (taken : br.taken = true) {trace : List Branch}
    (notTaken : ∀ later ∈ trace, later.taken = false) :
    (trace.foldl TargetBuffer.update (b.update br)).predict br.pc = .jump br.target := by
  rw [foldl_of_not_taken _ notTaken, predict, lookup_update_self sound taken]
  rfl

end TargetBuffer

/-! ## Units -/

namespace Config

/-- The unit of a configuration predicts not taken for every branch that was not
taken twice in a row, whatever it was asked and told before. -/
def GivesUp (c : Config) : Prop :=
  ∃ u, PredictionUnit.ofConfig c = .ok u ∧
    ∀ (cycles : List Cycle) (pc first second : Addr),
      ((u.afterCycles cycles).after [⟨pc, first, false⟩, ⟨pc, second, false⟩]).predict pc =
        .fallThrough pc

variable {c : Config}

theorem direction_fresh_of_btb (kind : c.kind = .btb) :
    (PredictionUnit.fresh c).direction = none := by
  rw [PredictionUnit.fresh, DirectionPredictor.fresh, kind]

theorem givesUp_of_counterIntegrated (accepted : c.validate = .ok ()) (kind : c.kind = .btb)
    (cache : c.targetCache = .counterIntegrated) : c.GivesUp := by
  have valid := (validate_eq_ok_iff c).mp accepted
  refine ⟨PredictionUnit.fresh c, PredictionUnit.ofConfig_of_valid valid, ?_⟩
  intro cycles pc first second
  rw [PredictionUnit.afterCycles_eq, ← PredictionUnit.after_append,
    PredictionUnit.predict_after_of_alone (direction_fresh_of_btb kind), List.foldl_append]
  have fresh : (PredictionUnit.fresh c).targets = .counterIntegrated (.fresh c.btbEntries) := by
    rw [PredictionUnit.fresh, TargetCache.fresh, cache]
  rw [fresh, TargetCache.foldl_counterIntegrated]
  have sound := (CounterBuffer.sound_fresh valid).foldl (cycles.filterMap (·.resolved))
  exact sound.predict_after_two pc first second

/-- A branch that is taken once and then falls through twice. -/
def takenOnce (pc target : Addr) : List Branch :=
  [⟨pc, target, true⟩, ⟨pc, target, false⟩, ⟨pc, target, false⟩]

/-- Without counters and without a direction predictor nothing predicts not taken
for a branch that the cache holds. -/
theorem predict_after_takenOnce (valid : c.Valid) (kind : c.kind = .btb)
    (cache : c.targetCache = .targetOnly) (pc target : Addr) :
    ((PredictionUnit.fresh c).after (takenOnce pc target)).predict pc = .jump target := by
  rw [PredictionUnit.predict_after_of_alone (direction_fresh_of_btb kind)]
  have fresh : (PredictionUnit.fresh c).targets = .targetOnly (.fresh c.btbEntries) := by
    rw [PredictionUnit.fresh, TargetCache.fresh, cache]
  rw [fresh, TargetCache.foldl_targetOnly]
  refine (TargetBuffer.sound_fresh valid).predict_after_taken ⟨pc, target, true⟩ rfl ?_
  intro later member
  rcases List.mem_cons.mp member with rfl | member
  · rfl
  · rw [List.mem_singleton.mp member]

theorem not_givesUp_of_targetOnly (valid : c.Valid) (kind : c.kind = .btb)
    (cache : c.targetCache = .targetOnly) : ¬ c.GivesUp := by
  rintro ⟨u, built, givesUp⟩
  rw [PredictionUnit.ofConfig_of_valid valid] at built
  cases built
  have kept := predict_after_takenOnce valid kind cache (.ofNat 0) (.ofNat 0)
  have given := givesUp [⟨none, some ⟨.ofNat 0, .ofNat 0, true⟩⟩] (.ofNat 0) (.ofNat 0) (.ofNat 0)
  have same := kept.symm.trans given
  exact absurd (congrArg Prediction.taken same) (by decide)

/-- **Giving up takes counters.** Of the units without a direction predictor,
those whose target cache has counters predict not taken for a branch that was not
taken twice in a row, from every state that they can reach; those whose cache has
none do not. -/
theorem givesUp_iff (accepted : c.validate = .ok ()) (kind : c.kind = .btb) :
    c.GivesUp ↔ c.targetCache = .counterIntegrated := by
  constructor
  · intro givesUp
    cases cache : c.targetCache with
    | counterIntegrated => rfl
    | targetOnly =>
      have valid := (validate_eq_ok_iff c).mp accepted
      exact absurd givesUp (not_givesUp_of_targetOnly valid kind cache)
  · exact givesUp_of_counterIntegrated accepted kind

/-- The preset of this kind has a cache with counters. -/
theorem givesUp_iff_preset :
    Preset.btb.config.validate = .ok () ∧ Preset.btb.config.kind = .btb ∧
      Preset.btb.config.GivesUp :=
  ⟨rfl, rfl, (givesUp_iff rfl rfl).mpr rfl⟩

/-- The configuration that names its kind and leaves everything else out. -/
def plain : Config :=
  { kind := .btb }

/-- The plain configuration has the usual cache, which has no counters. A branch
that was taken once is still predicted taken after it fell through twice. -/
theorem not_givesUp_plain :
    plain.validate = .ok () ∧ plain.kind = .btb ∧
      (∃ u, PredictionUnit.ofConfig plain = .ok u ∧
        (u.after (takenOnce (.ofNat 0x2000) (.ofNat 0x3000))).predict (.ofNat 0x2000) =
          .jump (.ofNat 0x3000)) ∧
      ¬ plain.GivesUp := by
  have valid : plain.Valid := (validate_eq_ok_iff plain).mp rfl
  refine ⟨rfl, rfl, ⟨_, PredictionUnit.ofConfig_of_valid valid, ?_⟩, ?_⟩
  · exact predict_after_takenOnce valid rfl rfl _ _
  · exact not_givesUp_of_targetOnly valid rfl rfl

end Config

end BranchPrediction
