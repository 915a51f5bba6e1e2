import BranchPrediction.Coding.Trace
import BranchPrediction.Config.Preset
import BranchPrediction.Simulator
import BranchPrediction.Stats.Report
import BranchPrediction.Workload.Basic
/-!
# Results

A run evaluates a configuration on named traces, each on a fresh unit, and shows
the counts as text or as one JSON object per trace. A sweep evaluates every
preset on every workload and shows a table.

## Main definitions

* `Results`: the counts of named traces
* `Results.textLines`, `Results.jsonLines`: how they are shown
* `renderRun`: the lines of a run
* `SweepRow`, `sweepRows`, `sweepLines`: the table of a sweep
-/

namespace BranchPrediction

/-- A trace with its name. -/
abbrev NamedTrace := String × List Branch

/-- The counts of named traces. -/
abbrev Results := List (String × Stats)

/-- The counts of each trace on a fresh unit. -/
def evaluateAll (c : Config) (traces : List NamedTrace) : Except ConfigError Results :=
  traces.mapM fun (name, trace) => do return (name, ← c.evaluate trace)

namespace Results

/-- The counts of all traces together. -/
def total (results : Results) : Stats :=
  results.foldl (fun sum (_, stats) => sum.merge stats) .empty

/-- The results as text: the configuration, a report for each trace and, where
there are several, one for all of them. -/
def textLines (c : Config) (results : Results) : List String :=
  ("Configuration: " ++ c.display) :: results.map (fun (name, stats) => stats.report name) ++
    if 1 < results.length then [results.total.report "all workloads"] else []

/-- The result of one trace as JSON, with the keys in alphabetical order. -/
def json (c : Config) (name : String) (stats : Stats) : Json :=
  .ofMembers [
    ("misprediction_rate", .ofFloat stats.mispredictionRate),
    ("predictor", .ofString c.label),
    ("stats", .ofMembers [
      ("branches", .ofNat stats.branches),
      ("direction_mispredictions", .ofNat stats.directionMispredictions),
      ("taken_branches", .ofNat stats.takenBranches),
      ("target_mispredictions", .ofNat stats.targetMispredictions)]),
    ("workload", .ofString name)]

/-- The results as JSON, one line for each trace. -/
def jsonLines (c : Config) (results : Results) : List String :=
  results.map fun (name, stats) => (json c name stats).render

end Results

/-- The lines of a run. -/
def renderRun (c : Config) (traces : List NamedTrace) (json : Bool) :
    Except ConfigError (List String) := do
  let results ← evaluateAll c traces
  return if json then results.jsonLines c else results.textLines c

/-! ## Comparison of presets -/

/-- The counts of one preset on one workload. -/
structure SweepRow where
  preset : Preset
  workload : Workload
  stats : Stats
  deriving DecidableEq

/-- The counts of every preset on every workload with `n` invocations. -/
def sweepRows (n : Nat) : Except ConfigError (List SweepRow) := do
  let traces := Workload.all.map fun w => (w, w.generate n)
  let rows ← Preset.all.mapM fun p =>
    traces.mapM fun (w, trace) => do return SweepRow.mk p w (← p.config.evaluate trace)
  return rows.flatten

/-- Four columns of a table. -/
def columns (a b c d : String) : String :=
  " | ".intercalate [padRight 15 a, padRight 14 b, padRight 10 c, padRight 10 d]

/-- One row of the table. -/
def SweepRow.line (r : SweepRow) : String :=
  columns r.preset.name r.workload.name (toString r.stats.branches)
    (percent r.stats.mispredictionRate)

/-- The lines of a sweep with `n` invocations. -/
def sweepLines (n : Nat) : Except ConfigError (List String) := do
  let rows ← sweepRows n
  return ["", rule '=' 64, columns "Predictor" "Workload" "Branches" "Mispred %", rule '-' 64] ++
    rows.map SweepRow.line ++ [rule '=' 64]

end BranchPrediction
