import BranchPrediction.Decimal.Fixed
import BranchPrediction.Stats.Basic
import BranchPrediction.Text
/-!
# Reports

The counts and rates of a run as a block of text between two rules.

## Main definitions

* `Stats.report`: the block with a title
-/

namespace BranchPrediction

/-- Percentages are shown with two decimal places. -/
def percent (x : Float) : String :=
  Decimal.fixed 2 x

/-- The report of a run under a title; the lines are joined without a final line
break. -/
def Stats.report (s : Stats) (title : String) : String :=
  "\n".intercalate [
    rule '=' 58,
    "BRANCH PREDICTION: " ++ title,
    rule '-' 58,
    "Total branches: " ++ toString s.branches,
    "Taken branches: " ++ toString s.takenBranches ++ " (" ++
      percent (s.percentage s.takenBranches) ++ "%)",
    "Direction mispredictions: " ++ toString s.directionMispredictions,
    "Target mispredictions: " ++ toString s.targetMispredictions,
    "Misprediction rate: " ++ percent s.mispredictionRate ++ "%",
    "Accuracy: " ++ percent (s.accuracy * 100.0) ++ "%",
    rule '=' 58]

end BranchPrediction
