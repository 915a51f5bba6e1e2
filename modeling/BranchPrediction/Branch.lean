import BranchPrediction.Addr
/-!
# Branches and predictions

The front end asks for a prediction by address and later reports how the branch
resolved.

## Main definitions

* `Branch`: a resolved branch
* `Prediction`: a predicted direction with the address to fetch from
-/

namespace BranchPrediction

/-- A resolved branch. A not-taken branch has a target too. -/
@[ext]
structure Branch where
  pc : Addr
  /-- The address that the branch goes to when it is taken. -/
  target : Addr
  taken : Bool
  deriving DecidableEq

/-- A predicted direction with the address to fetch from. -/
@[ext]
structure Prediction where
  taken : Bool
  /-- The address to fetch from. -/
  address : Addr
  deriving DecidableEq

namespace Prediction

/-- The prediction that `pc` is not taken. -/
def fallThrough (pc : Addr) : Prediction :=
  ⟨false, pc.next⟩

/-- The prediction that a branch goes to `target`. -/
def jump (target : Addr) : Prediction :=
  ⟨true, target⟩

/-- The prediction that a known target is jumped to and that anything else falls
through. -/
def ofTarget? (pc : Addr) : Option Addr → Prediction
  | some target => jump target
  | none => fallThrough pc

end Prediction

end BranchPrediction
