import BranchPrediction.Direction.Bimodal
import BranchPrediction.Direction.GatedGShare
import BranchPrediction.Direction.GShare
import BranchPrediction.Direction.Perceptron
import BranchPrediction.Direction.TwoLevel
/-!
# Direction predictors

A direction predictor is one of the five variants. A configuration may also ask
for none, and then the target cache decides directions.

## Main definitions

* `DirectionPredictor`: one of the variants
* `DirectionPredictor.ofConfig`: the fresh predictor of a configuration
* `DirectionPredictor.predict`, `DirectionPredictor.predictTarget`,
  `DirectionPredictor.update`
-/

namespace BranchPrediction

/-- One of the direction prediction variants. -/
inductive DirectionPredictor where
  | bimodal (p : Bimodal)
  | gshare (p : GShare)
  | gatedGShare (p : GatedGShare)
  | twoLevel (p : TwoLevel)
  | perceptron (p : Perceptron)

namespace DirectionPredictor

/-- The fresh predictor of a valid configuration, if it has one. -/
def ofConfig (c : Config) : Except ConfigError (Option DirectionPredictor) := do
  match c.kind with
  | .btb =>
    c.validate
    return none
  | .bimodal => return some (bimodal (← Bimodal.ofConfig c))
  | .gshare | .gshareFolded => return some (gshare (← GShare.ofConfig c))
  | .gshareBtb => return some (gatedGShare (← GatedGShare.ofConfig c))
  | .twoLevel => return some (twoLevel (← TwoLevel.ofConfig c))
  | .perceptron => return some (perceptron (← Perceptron.ofConfig c))

def name : DirectionPredictor → String
  | bimodal p => p.name
  | gshare p => p.name
  | gatedGShare p => p.name
  | twoLevel p => p.name
  | perceptron p => p.name

def predict (d : DirectionPredictor) (pc : Addr) : Bool :=
  match d with
  | bimodal p => p.predict pc
  | gshare p => p.predict pc
  | gatedGShare p => p.predict pc
  | twoLevel p => p.predict pc
  | perceptron p => p.predict pc

/-- The target of the branch at `pc`, for the variant that keeps targets. -/
def predictTarget (d : DirectionPredictor) (pc : Addr) : Option Addr :=
  match d with
  | gatedGShare p => p.predictTarget pc
  | _ => none

def update (d : DirectionPredictor) (br : Branch) : DirectionPredictor :=
  match d with
  | bimodal p => bimodal (p.update br)
  | gshare p => gshare (p.update br)
  | gatedGShare p => gatedGShare (p.update br)
  | twoLevel p => twoLevel (p.update br)
  | perceptron p => perceptron (p.update br)

end DirectionPredictor

end BranchPrediction
