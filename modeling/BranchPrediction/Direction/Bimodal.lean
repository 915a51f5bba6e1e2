import BranchPrediction.Branch
import BranchPrediction.Counter
import BranchPrediction.Table
import BranchPrediction.Config.Validation
/-!
# Bimodal prediction

A table of direction counters indexed by the branch address.

## Main definitions

* `Bimodal`: the predictor
* `Bimodal.predict`, `Bimodal.update`: its counter read and trained
-/

namespace BranchPrediction

/-- A table of direction counters indexed by address. -/
structure Bimodal where
  counters : Table Counter
  indexBits : Nat

namespace Bimodal

/-- The fresh predictor of a valid configuration. -/
def ofConfig (c : Config) : Except ConfigError Bimodal := do
  c.validate
  return ⟨Table.fresh c.entries (Counter.weaklyTaken c.counterBits), c.indexBits⟩

def name (_ : Bimodal) : String :=
  "bimodal"

/-- The index of the counter of `pc`. -/
def index (p : Bimodal) (pc : Addr) : Nat :=
  pc.wordIndex p.indexBits

def counter (p : Bimodal) (pc : Addr) : Counter :=
  p.counters.get (p.index pc)

def predict (p : Bimodal) (pc : Addr) : Bool :=
  (p.counter pc).predictsTaken

/-- A resolved branch trains its counter. -/
def update (p : Bimodal) (br : Branch) : Bimodal :=
  { p with counters := p.counters.modify (br.pc.wordIndex p.indexBits) (·.train br.taken) }

end Bimodal

end BranchPrediction
