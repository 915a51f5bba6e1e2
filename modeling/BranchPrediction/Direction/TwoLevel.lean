import BranchPrediction.Branch
import BranchPrediction.Counter
import BranchPrediction.History
import BranchPrediction.Table
import BranchPrediction.Config.Validation
/-!
# Two-level local prediction

The first level keeps a history per branch address, the second a counter per
history value. Branches with the same recent behaviour share a counter.

## Main definitions

* `TwoLevel`: the two tables
* `TwoLevel.localHistory`, `TwoLevel.counterOf`: the two levels read
* `TwoLevel.predict`, `TwoLevel.update`: the selected counter read and trained
-/

namespace BranchPrediction

/-- Local histories that select shared counters. -/
structure TwoLevel where
  histories : Table History
  /-- The index width of the first level. -/
  indexBits : Nat
  /-- The shared counters, one for each history value. -/
  counters : Table Counter

namespace TwoLevel

/-- The fresh predictor of a valid configuration. -/
def ofConfig (c : Config) : Except ConfigError TwoLevel := do
  c.validate
  return {
    histories := Table.fresh c.entries (History.ofLength c.historyLength)
    indexBits := c.indexBits
    counters := Table.fresh (2 ^ c.historyLength) (Counter.weaklyTaken c.counterBits) }

def name (_ : TwoLevel) : String :=
  "two-level"

/-- The first-level slot of `pc`. -/
def slot (p : TwoLevel) (pc : Addr) : Nat :=
  pc.wordIndex p.indexBits

/-- The history of the branches in the slot of `pc`. -/
def localHistory (p : TwoLevel) (pc : Addr) : History :=
  p.histories.get (p.slot pc)

/-- The counter that a history selects. -/
def counterOf (p : TwoLevel) (h : History) : Counter :=
  p.counters.get h.bits

def predict (p : TwoLevel) (pc : Addr) : Bool :=
  (p.counterOf (p.localHistory pc)).predictsTaken

/-- A resolved branch trains the counter of its history and then enters the
history. -/
def update (p : TwoLevel) (br : Branch) : TwoLevel :=
  let i := p.slot br.pc
  let j := (p.localHistory br.pc).bits
  { p with
    histories := p.histories.modify i (·.shifted br.taken)
    counters := p.counters.modify j (·.train br.taken) }

end TwoLevel

end BranchPrediction
