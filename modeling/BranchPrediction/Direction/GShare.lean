import BranchPrediction.Branch
import BranchPrediction.Counter
import BranchPrediction.IndexScheme
import BranchPrediction.Table
import BranchPrediction.Config.Validation
/-!
# Global history prediction

A pattern table of direction counters indexed by the branch address mixed with
the global history. The history takes in each outcome either before or after
the trained index is computed.

## Main definitions

* `GShare`: the predictor
* `GShare.withScheme`, `GShare.ofConfig`: fresh predictors
* `GShare.predict`, `GShare.update`: the selected counter read and trained
-/

namespace BranchPrediction

/-- A pattern table indexed by address and global history. -/
structure GShare where
  history : History
  counters : Table Counter
  indexBits : Nat
  /-- How the index is computed. -/
  scheme : IndexScheme
  /-- When the history takes in an outcome. -/
  order : ShiftOrder

namespace GShare

/-- The fresh predictor of a valid configuration with a given index scheme and
shift order. -/
def withScheme (c : Config) (scheme : IndexScheme) (order : ShiftOrder) :
    Except ConfigError GShare := do
  c.validate
  return {
    history := History.ofLength c.historyLength
    counters := Table.fresh (2 ^ c.phtIndexBits) (Counter.weaklyTaken c.counterBits)
    indexBits := c.phtIndexBits
    scheme
    order }

/-- The index scheme that a configuration asks for. -/
def schemeOf (c : Config) : IndexScheme :=
  match c.kind, c.useHashing with
  | .gshareFolded, _ => .folded
  | _, true => .xor
  | _, false => .direct

/-- The fresh predictor of a valid configuration. -/
def ofConfig (c : Config) : Except ConfigError GShare :=
  withScheme c (schemeOf c) c.shiftOrder

def name (p : GShare) : String :=
  match p.scheme with
  | .direct => "gshare-direct"
  | .xor => "gshare-xor"
  | .folded => "gshare-folded"

/-- The index of the counter that `pc` selects under the current history. -/
def index (p : GShare) (pc : Addr) : Nat :=
  p.scheme.index pc p.history p.indexBits

def counterAt (p : GShare) (i : Nat) : Counter :=
  p.counters.get i

def predict (p : GShare) (pc : Addr) : Bool :=
  (p.counterAt (p.index pc)).predictsTaken

/-- The history under which a branch trains its counter. -/
def trainingHistory (p : GShare) (br : Branch) : History :=
  match p.order with
  | .shiftFirst => p.history.shifted br.taken
  | .shiftLast => p.history

/-- The index of the counter that a branch trains. -/
def trainingIndex (p : GShare) (br : Branch) : Nat :=
  p.scheme.index br.pc (p.trainingHistory br) p.indexBits

/-- A resolved branch trains a counter and enters the history. -/
def update (p : GShare) (br : Branch) : GShare :=
  let i := p.trainingIndex br
  { p with
    history := p.history.shifted br.taken
    counters := p.counters.modify i (·.train br.taken) }

end GShare

end BranchPrediction
