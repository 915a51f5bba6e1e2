import BranchPrediction.Branch
import BranchPrediction.Table
import BranchPrediction.Config.Validation
/-!
# Target buffers

A direct-mapped table of tagged targets. A taken branch overwrites the slot of
its address; nothing else changes a slot.

## Main definitions

* `TargetEntry`: one slot
* `TargetBuffer`: the table
* `TargetBuffer.lookup`, `TargetBuffer.predict`: the stored target of a branch
* `TargetBuffer.update`: what a resolved branch does
-/

namespace BranchPrediction

/-- A slot of a target buffer. -/
structure TargetEntry where
  valid : Bool
  tag : Nat
  target : Addr
  deriving DecidableEq

/-- A slot that is not in use. -/
def TargetEntry.empty : TargetEntry :=
  ⟨false, 0, Addr.ofNat 0⟩

/-- A direct-mapped table of tagged targets. -/
structure TargetBuffer where
  slots : Table TargetEntry
  indexBits : Nat

namespace TargetBuffer

/-- The empty buffer with a given number of slots. -/
def ofSize (entries : Nat) : Except ConfigError TargetBuffer := do
  checkTable .btbEntries entries
  return ⟨Table.fresh entries .empty, Config.indexWidth entries⟩

/-- The slot that an address selects. -/
def slot (b : TargetBuffer) (pc : Addr) : TargetEntry :=
  b.slots.get (pc.wordIndex b.indexBits)

/-- The stored target of the branch at `pc`. -/
def lookup (b : TargetBuffer) (pc : Addr) : Option Addr :=
  let e := b.slot pc
  if e.valid ∧ e.tag = pc.tag b.indexBits then some e.target else none

/-- A branch with a stored target is predicted taken. -/
def predict (b : TargetBuffer) (pc : Addr) : Prediction :=
  .ofTarget? pc (b.lookup pc)

/-- A taken branch stores its target. -/
def update (b : TargetBuffer) (br : Branch) : TargetBuffer :=
  if br.taken then
    { b with
      slots := b.slots.modify (br.pc.wordIndex b.indexBits) fun _ =>
        ⟨true, br.pc.tag b.indexBits, br.target⟩ }
  else b

@[simp]
theorem indexBits_update (b : TargetBuffer) (br : Branch) :
    (b.update br).indexBits = b.indexBits := by
  unfold update
  split <;> rfl

/-- A taken branch overwrites the slot that its address selects. -/
theorem slot_update (b : TargetBuffer) (br : Branch) (pc : Addr)
    (h : br.pc.wordIndex b.indexBits < b.slots.size) :
    (b.update br).slot pc =
      if br.taken ∧ br.pc.wordIndex b.indexBits = pc.wordIndex b.indexBits then
        ⟨true, br.pc.tag b.indexBits, br.target⟩
      else b.slot pc := by
  by_cases taken : br.taken
  · simpa [update, slot, taken] using
      Table.get_modify b.slots _ (pc.wordIndex b.indexBits)
        (fun _ => ⟨true, br.pc.tag b.indexBits, br.target⟩) h
  · simp [update, taken]

end TargetBuffer

end BranchPrediction
