import BranchPrediction.Branch
/-!
# Prediction statistics

Each resolved branch is counted with the prediction that was made for it. A
prediction is wrong in its direction, or right in its direction but wrong in
its target; the second can only happen to taken branches.

## Main definitions

* `Stats`: the four counts
* `Stats.record`: the counts after one more branch
* `Stats.merge`, `Stats.since`: the counts of two runs together, and of the
  second of two runs
* `Stats.mispredictionRate`, `Stats.accuracy`: derived rates
-/

namespace BranchPrediction

/-- The counts of a run. -/
@[ext]
structure Stats where
  branches : Nat := 0
  takenBranches : Nat := 0
  /-- The branches whose direction was predicted wrongly. -/
  directionMispredictions : Nat := 0
  /-- The branches that were rightly predicted taken, to a wrong address. -/
  targetMispredictions : Nat := 0
  deriving DecidableEq

namespace Stats

/-- The counts before any branch. -/
def empty : Stats :=
  {}

/-- Whether the direction of a branch was predicted wrongly. -/
def wrongDirection (p : Prediction) (br : Branch) : Bool :=
  p.taken != br.taken

/-- Whether a branch was rightly predicted taken, to a wrong address. -/
def wrongTarget (p : Prediction) (br : Branch) : Bool :=
  p.taken == br.taken && br.taken && p.address != br.target

/-- Counts a branch with the prediction that was made for it. -/
def record (s : Stats) (p : Prediction) (br : Branch) : Stats where
  branches := s.branches + 1
  takenBranches := s.takenBranches + br.taken.toNat
  directionMispredictions := s.directionMispredictions + (wrongDirection p br).toNat
  targetMispredictions := s.targetMispredictions + (wrongTarget p br).toNat

/-- The counts of two runs together. -/
def merge (s t : Stats) : Stats where
  branches := s.branches + t.branches
  takenBranches := s.takenBranches + t.takenBranches
  directionMispredictions := s.directionMispredictions + t.directionMispredictions
  targetMispredictions := s.targetMispredictions + t.targetMispredictions

/-- What was counted after an earlier state of the counts. -/
def since (s earlier : Stats) : Stats where
  branches := s.branches - earlier.branches
  takenBranches := s.takenBranches - earlier.takenBranches
  directionMispredictions := s.directionMispredictions - earlier.directionMispredictions
  targetMispredictions := s.targetMispredictions - earlier.targetMispredictions

/-- The wrong predictions of either kind. -/
def mispredictions (s : Stats) : Nat :=
  s.directionMispredictions + s.targetMispredictions

/-- A share of the branches in percent; zero if there was no branch. -/
def percentage (s : Stats) (n : Nat) : Float :=
  if s.branches = 0 then 0.0 else Float.ofNat n / Float.ofNat s.branches * 100.0

/-- The wrong predictions in percent of the branches. -/
def mispredictionRate (s : Stats) : Float :=
  s.percentage s.mispredictions

/-- The share of right predictions, between zero and one. -/
def accuracy (s : Stats) : Float :=
  1.0 - s.mispredictionRate / 100.0

end Stats

end BranchPrediction
