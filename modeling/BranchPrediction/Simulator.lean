import BranchPrediction.PredictionUnit
import BranchPrediction.Stats.Basic
/-!
# Trace simulation

A simulator feeds resolved branches to a prediction unit, one per clock cycle,
and counts how well they were predicted.

## Main definitions

* `Simulator`: a unit with its counts
* `Simulator.step`: one branch
* `Simulator.replay`, `Simulator.run`: a trace, and the counts of that trace alone
* `Config.evaluate`: the counts of a trace on a fresh unit
-/

namespace BranchPrediction

/-- A prediction unit with the counts of what it predicted so far. -/
structure Simulator where
  unit : PredictionUnit
  stats : Stats

namespace Simulator

/-- The fresh simulator of a valid configuration. -/
def ofConfig (c : Config) : Except ConfigError Simulator := do
  let unit ← PredictionUnit.ofConfig c
  return ⟨unit, .empty⟩

/-- One clock cycle for a resolved branch, with the prediction that was made for
it. -/
def step (s : Simulator) (br : Branch) : Prediction × Simulator :=
  let (prediction, unit) := s.unit.tick (some br.pc) (some br)
  let prediction := prediction.getD (.fallThrough br.pc)
  (prediction, ⟨unit, s.stats.record prediction br⟩)

def replay (s : Simulator) (trace : List Branch) : Simulator :=
  trace.foldl (fun s br => (s.step br).2) s

/-- A trace, with the counts of that trace alone. -/
def run (s : Simulator) (trace : List Branch) : Stats × Simulator :=
  let final := s.replay trace
  (final.stats.since s.stats, final)

end Simulator

/-- The counts of a trace on a fresh unit. -/
def Config.evaluate (c : Config) (trace : List Branch) : Except ConfigError Stats := do
  let s ← Simulator.ofConfig c
  return (s.run trace).1

end BranchPrediction
