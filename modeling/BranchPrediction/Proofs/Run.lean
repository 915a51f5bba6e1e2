import BranchPrediction.Simulator
/-!
# Runs of a prediction unit

A unit runs for some clock cycles, and each cycle may bring a query, a resolved
branch or both. A query never changes the unit, so a run of cycles leaves what
its resolved branches leave. The two halves of a unit never read each other's
state, so each half runs on its own.

A simulator makes a query in every cycle and keeps counts. The counts of a trace
depend on the unit it starts from and on nothing that was counted before.

## Main definitions

* `Cycle`: what a unit is given in one clock cycle
* `PredictionUnit.after`, `PredictionUnit.afterCycles`: the unit after a run
* `PredictionUnit.tally`: the counts of a trace

## Main results

* `PredictionUnit.afterCycles_eq`: queries leave no trace
* `Simulator.run_eq`: a run of a simulator yields the counts of its trace
-/

namespace BranchPrediction

/-- What a unit is given in one clock cycle. -/
structure Cycle where
  /-- The address of the branch to predict, if there is one. -/
  query : Option Addr
  /-- The branch that resolved, if there is one. -/
  resolved : Option Branch

/-! ## Direction predictors

The variant does not change in a run. -/

namespace DirectionPredictor

theorem foldl_bimodal (p : Bimodal) (trace : List Branch) :
    trace.foldl update (bimodal p) = bimodal (trace.foldl Bimodal.update p) :=
  List.foldl_hom bimodal fun _ _ => rfl

theorem foldl_gshare (p : GShare) (trace : List Branch) :
    trace.foldl update (gshare p) = gshare (trace.foldl GShare.update p) :=
  List.foldl_hom gshare fun _ _ => rfl

theorem foldl_gatedGShare (p : GatedGShare) (trace : List Branch) :
    trace.foldl update (gatedGShare p) = gatedGShare (trace.foldl GatedGShare.update p) :=
  List.foldl_hom gatedGShare fun _ _ => rfl

theorem foldl_twoLevel (p : TwoLevel) (trace : List Branch) :
    trace.foldl update (twoLevel p) = twoLevel (trace.foldl TwoLevel.update p) :=
  List.foldl_hom twoLevel fun _ _ => rfl

end DirectionPredictor

/-! ## Units -/

namespace PredictionUnit

/-- The unit after some branches resolved, the first one first. -/
def after (u : PredictionUnit) (trace : List Branch) : PredictionUnit :=
  trace.foldl update u

/-- The unit after some clock cycles, the first one first. -/
def afterCycles (u : PredictionUnit) (cycles : List Cycle) : PredictionUnit :=
  cycles.foldl (fun u t => (u.tick t.query t.resolved).2) u

@[simp]
theorem after_nil (u : PredictionUnit) : u.after [] = u :=
  rfl

@[simp]
theorem after_cons (u : PredictionUnit) (br : Branch) (trace : List Branch) :
    u.after (br :: trace) = (u.update br).after trace :=
  rfl

theorem after_append (u : PredictionUnit) (first second : List Branch) :
    u.after (first ++ second) = (u.after first).after second :=
  List.foldl_append

/-- Only the resolved branches of a run change the unit. -/
theorem afterCycles_eq (u : PredictionUnit) (cycles : List Cycle) :
    u.afterCycles cycles = u.after (cycles.filterMap (·.resolved)) := by
  induction cycles generalizing u with
  | nil => rfl
  | cons t cycles ih =>
    change ((u.tick t.query t.resolved).2).afterCycles cycles = _
    rw [ih, List.filterMap_cons]
    cases t.resolved <;> rfl

/-- The direction predictor runs on its own. -/
theorem direction_after (u : PredictionUnit) (trace : List Branch) :
    (u.after trace).direction = u.direction.map fun d => trace.foldl .update d := by
  induction trace generalizing u with
  | nil => exact Option.map_id'.symm
  | cons br trace ih =>
    rw [after_cons, ih, update, Option.map_map]
    rfl

/-- The target cache runs on its own. -/
theorem targets_after (u : PredictionUnit) (trace : List Branch) :
    (u.after trace).targets = trace.foldl .update u.targets := by
  induction trace generalizing u with
  | nil => rfl
  | cons br trace ih =>
    rw [after_cons, ih]
    rfl

/-- Without a direction predictor the target cache decides alone. -/
theorem predict_after_of_alone {u : PredictionUnit} (alone : u.direction = none)
    (trace : List Branch) (pc : Addr) :
    (u.after trace).predict pc = (trace.foldl TargetCache.update u.targets).predict pc := by
  have still : (u.after trace).direction = none := by
    rw [direction_after, alone]
    rfl
  rw [predict, still, targets_after]

/-- A unit keeps its direction predictor. -/
theorem direction_after_of_some {u : PredictionUnit} {d : DirectionPredictor}
    (present : u.direction = some d) (trace : List Branch) :
    (u.after trace).direction = some (trace.foldl .update d) := by
  rw [direction_after, present]
  rfl

/-- A direction, a private target and a cached one make up a prediction. -/
theorem predict_congr {u v : PredictionUnit} {d e : DirectionPredictor}
    (present : u.direction = some d) (present' : v.direction = some e) {pc : Addr}
    (direction : d.predict pc = e.predict pc) (target : d.predictTarget pc = e.predictTarget pc)
    (cached : u.targets.lookup pc = v.targets.lookup pc) : u.predict pc = v.predict pc := by
  simp only [predict, targetOf, present, present', direction, target, cached]

/-- Units with one cache predict alike if their direction predictors do. -/
theorem predict_after_congr {u v : PredictionUnit} {d e : DirectionPredictor}
    (present : u.direction = some d) (present' : v.direction = some e)
    (same : u.targets = v.targets) {trace : List Branch} {pc : Addr}
    (direction : (trace.foldl .update d).predict pc = (trace.foldl .update e).predict pc)
    (target : (trace.foldl .update d).predictTarget pc =
      (trace.foldl .update e).predictTarget pc) :
    (u.after trace).predict pc = (v.after trace).predict pc := by
  refine predict_congr (direction_after_of_some present trace)
    (direction_after_of_some present' trace) direction target ?_
  rw [targets_after, targets_after, same]

/-! ## Counting -/

/-- The counts of a trace, each branch predicted before it resolves. -/
def tally (u : PredictionUnit) : List Branch → Stats
  | [] => .empty
  | br :: trace => (Stats.empty.record (u.predict br.pc) br).merge ((u.update br).tally trace)

end PredictionUnit

namespace Stats

theorem merge_assoc (s t v : Stats) : (s.merge t).merge v = s.merge (t.merge v) := by
  ext <;> exact Nat.add_assoc _ _ _

theorem record_eq_merge (s : Stats) (p : Prediction) (br : Branch) :
    s.record p br = s.merge (Stats.empty.record p br) := by
  ext <;> simp [record, merge, empty]

/-- What is counted after a state of the counts is what was added to it. -/
theorem since_merge (s t : Stats) : (s.merge t).since s = t := by
  ext <;> exact Nat.add_sub_cancel_left _ _

end Stats

namespace Simulator

/-- A simulator predicts each branch before it resolves. -/
theorem step_eq (s : Simulator) (br : Branch) :
    s.step br =
      (s.unit.predict br.pc, ⟨s.unit.update br, s.stats.record (s.unit.predict br.pc) br⟩) :=
  rfl

/-- A trace adds its counts to those that were there. -/
theorem replay_eq (s : Simulator) (trace : List Branch) :
    s.replay trace = ⟨s.unit.after trace, s.stats.merge (s.unit.tally trace)⟩ := by
  induction trace generalizing s with
  | nil => rfl
  | cons br trace ih =>
    change (s.step br).2.replay trace = _
    rw [ih, step_eq]
    simp only [PredictionUnit.after_cons, PredictionUnit.tally]
    rw [Stats.record_eq_merge, Stats.merge_assoc]

/-- A run yields the counts of its trace, whatever was counted before. -/
theorem run_eq (s : Simulator) (trace : List Branch) :
    s.run trace =
      (s.unit.tally trace, ⟨s.unit.after trace, s.stats.merge (s.unit.tally trace)⟩) := by
  simp only [run, replay_eq, Stats.since_merge]

end Simulator

end BranchPrediction
