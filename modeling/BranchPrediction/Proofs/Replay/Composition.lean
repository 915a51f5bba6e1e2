import BranchPrediction.Proofs.Run
/-!
# Traces in parts

A trace may be replayed in one run or cut into parts that are replayed one after
another. The simulator ends up the same, and the counts of the parts add up to
those of the whole. A run only ever adds to what was counted before, and what it
adds depends on the unit that it starts from and on its trace.

## Main definitions

* `Stats.AtMost`: the order on counts

## Main results

* `PredictionUnit.tally_append`: the counts of two parts
* `Simulator.run_append`, `Simulator.merge_run`: what a run yields and what it leaves
* `Simulator.run_additive`: how runs combine
-/

namespace BranchPrediction

/-! ## Counts -/

namespace Stats

theorem empty_merge (s : Stats) : empty.merge s = s := by
  ext <;> exact Nat.zero_add _

/-- No count is greater. -/
structure AtMost (s t : Stats) : Prop where
  branches_le : s.branches ≤ t.branches
  takenBranches_le : s.takenBranches ≤ t.takenBranches
  directionMispredictions_le : s.directionMispredictions ≤ t.directionMispredictions
  targetMispredictions_le : s.targetMispredictions ≤ t.targetMispredictions

instance : LE Stats :=
  ⟨AtMost⟩

theorem le_merge (s t : Stats) : s ≤ s.merge t where
  branches_le := Nat.le_add_right _ _
  takenBranches_le := Nat.le_add_right _ _
  directionMispredictions_le := Nat.le_add_right _ _
  targetMispredictions_le := Nat.le_add_right _ _

end Stats

/-- The second part is counted on the unit that the first part leaves. -/
theorem PredictionUnit.tally_append (u : PredictionUnit) (first second : List Branch) :
    u.tally (first ++ second) = (u.tally first).merge ((u.after first).tally second) := by
  induction first generalizing u with
  | nil => exact (Stats.empty_merge _).symm
  | cons br first ih =>
    rw [List.cons_append, tally, ih, ← Stats.merge_assoc]
    rfl

/-! ## Runs -/

namespace Simulator

/-- A run of two parts is a run of the first and then one of the second. -/
theorem run_append (s : Simulator) (first second : List Branch) :
    s.run (first ++ second) =
      ((s.run first).1.merge ((s.run first).2.run second).1,
        ((s.run first).2.run second).2) := by
  simp only [run_eq, PredictionUnit.tally_append, PredictionUnit.after_append, Stats.merge_assoc]

/-- What a run yields is what it adds. -/
theorem merge_run (s : Simulator) (trace : List Branch) :
    s.stats.merge (s.run trace).1 = (s.run trace).2.stats := by
  rw [run_eq]

/-- No count ever falls. -/
theorem stats_le_run (s : Simulator) (trace : List Branch) :
    s.stats ≤ (s.run trace).2.stats := by
  rw [← merge_run]
  exact Stats.le_merge _ _

/-- **Runs add up.** A trace in two parts leaves the same simulator as the whole
trace, and yields counts that merge to those of the whole. Every run yields the
difference of the counts after it and before it, where no count is smaller than
before, so the difference is what was added. And what was counted before makes
no difference to what a run yields, nor to the unit that it leaves. -/
theorem run_additive (s : Simulator) :
    (∀ first second : List Branch,
      let whole := s.run (first ++ second)
      let part := s.run first
      let rest := part.2.run second
      whole.2.unit = rest.2.unit ∧ whole.2.stats = rest.2.stats ∧
        whole.1 = part.1.merge rest.1) ∧
    (∀ trace : List Branch,
      let r := s.run trace
      s.stats ≤ r.2.stats ∧ r.1 = r.2.stats.since s.stats ∧ s.stats.merge r.1 = r.2.stats) ∧
    ∀ (counted : Stats) (trace : List Branch),
      let r := s.run trace
      let r' := run ⟨s.unit, counted⟩ trace
      r'.1 = r.1 ∧ r'.2.unit = r.2.unit := by
  refine ⟨?_, ?_, ?_⟩
  · intro first second
    simp only [run_append, and_self]
  · intro trace
    exact ⟨stats_le_run s trace, rfl, merge_run s trace⟩
  · intro counted trace
    simp only [run_eq, and_self]

end Simulator

end BranchPrediction
