import BranchPrediction.Direction.DirectionPredictor
import BranchPrediction.Target.TargetCache
/-!
# The branch prediction unit

A unit pairs a direction predictor with a target cache. A branch that is
predicted taken goes to the target that the direction predictor keeps for it,
else to the cached target, else to the following instruction. Without a
direction predictor the cache alone decides.

## Main definitions

* `PredictionUnit`: the pair
* `PredictionUnit.ofConfig`: the fresh unit of a configuration
* `PredictionUnit.predict`, `PredictionUnit.update`
* `PredictionUnit.tick`: one clock cycle
-/

namespace BranchPrediction

/-- A direction predictor with a target cache. -/
structure PredictionUnit where
  direction : Option DirectionPredictor
  targets : TargetCache
  label : String

namespace PredictionUnit

/-- The fresh unit of a valid configuration. -/
def ofConfig (c : Config) : Except ConfigError PredictionUnit := do
  c.validate
  let direction ← DirectionPredictor.ofConfig c
  let targets ← TargetCache.ofConfig c
  return { direction, targets, label := c.label }

/-- The target of a branch that is predicted taken by `d`. -/
def targetOf (u : PredictionUnit) (d : DirectionPredictor) (pc : Addr) : Addr :=
  ((d.predictTarget pc).or (u.targets.lookup pc)).getD pc.next

def predict (u : PredictionUnit) (pc : Addr) : Prediction :=
  match u.direction with
  | none => u.targets.predict pc
  | some d => if d.predict pc then .jump (u.targetOf d pc) else .fallThrough pc

def update (u : PredictionUnit) (br : Branch) : PredictionUnit :=
  { u with
    direction := u.direction.map (·.update br)
    targets := u.targets.update br }

/-- One clock cycle: a prediction on the state as it was, then a resolved
branch. -/
def tick (u : PredictionUnit) (query : Option Addr) (resolved : Option Branch) :
    Option Prediction × PredictionUnit :=
  let prediction := query.map u.predict
  match resolved with
  | some br => (prediction, u.update br)
  | none => (prediction, u)

end PredictionUnit

end BranchPrediction
