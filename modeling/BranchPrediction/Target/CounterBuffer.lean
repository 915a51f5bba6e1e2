import BranchPrediction.Branch
import BranchPrediction.Counter
import BranchPrediction.Table
import BranchPrediction.Config.Validation
/-!
# Target buffers with counters

A direct-mapped table of tagged targets, each with a two-bit direction counter.
A taken branch is stored and strengthened; a not-taken branch is weakened and
leaves the table once its counter is low.

## Main definitions

* `CounterEntry`: one slot
* `CounterEntry.update`: what a resolved branch does to its slot
* `CounterBuffer`: the table
* `CounterBuffer.lookup`, `CounterBuffer.predict`: the slot of a branch and its advice
-/

namespace BranchPrediction

/-- The width of the counters beside the targets. -/
def slotCounterBits : Nat := 2

/-- A slot of a target buffer with counters. -/
structure CounterEntry where
  valid : Bool
  tag : Nat
  target : Addr
  /-- The direction of that branch. -/
  counter : Counter
  deriving DecidableEq

namespace CounterEntry

/-- A slot that is not in use. -/
def empty : CounterEntry :=
  ⟨false, 0, Addr.ofNat 0, Counter.ofBits slotCounterBits 0⟩

/-- Whether the slot belongs to the branch with a given tag. -/
def hits (e : CounterEntry) (tag : Nat) : Bool :=
  e.valid && e.tag == tag

/-- What a resolved branch with a given tag does to its slot. -/
def update (e : CounterEntry) (tag : Nat) (br : Branch) : CounterEntry :=
  if e.hits tag then
    if br.taken then { e with target := br.target, counter := e.counter.increment }
    else if e.counter.value ≤ 1 then empty
    else { e with counter := e.counter.decrement }
  else if br.taken then ⟨true, tag, br.target, Counter.weaklyTaken slotCounterBits⟩
  else e

end CounterEntry

/-- A direct-mapped table of tagged targets with counters. -/
structure CounterBuffer where
  slots : Table CounterEntry
  indexBits : Nat

namespace CounterBuffer

/-- The empty buffer with a given number of slots. -/
def ofSize (entries : Nat) : Except ConfigError CounterBuffer := do
  checkTable .btbEntries entries
  return ⟨Table.fresh entries .empty, Config.indexWidth entries⟩

/-- The slot that an address selects. -/
def slot (b : CounterBuffer) (pc : Addr) : CounterEntry :=
  b.slots.get (pc.wordIndex b.indexBits)

/-- The slot of the branch at `pc`, if it has one. -/
def lookup (b : CounterBuffer) (pc : Addr) : Option CounterEntry :=
  let e := b.slot pc
  if e.hits (pc.tag b.indexBits) then some e else none

/-- A branch is predicted taken if it has a slot whose counter says so. -/
def predict (b : CounterBuffer) (pc : Addr) : Prediction :=
  .ofTarget? pc (((b.lookup pc).filter fun e => e.counter.predictsTaken).map (·.target))

/-- A resolved branch changes its own slot only. -/
def update (b : CounterBuffer) (br : Branch) : CounterBuffer :=
  { b with
    slots := b.slots.modify (br.pc.wordIndex b.indexBits) fun e =>
      e.update (br.pc.tag b.indexBits) br }

@[simp]
theorem indexBits_update (b : CounterBuffer) (br : Branch) :
    (b.update br).indexBits = b.indexBits :=
  rfl

/-- A resolved branch changes the slot that its address selects. -/
theorem slot_update (b : CounterBuffer) (br : Branch) (pc : Addr)
    (h : br.pc.wordIndex b.indexBits < b.slots.size) :
    (b.update br).slot pc =
      if br.pc.wordIndex b.indexBits = pc.wordIndex b.indexBits then
        (b.slot pc).update (br.pc.tag b.indexBits) br
      else b.slot pc :=
  Table.get_modify _ _ _ _ h

end CounterBuffer

end BranchPrediction
