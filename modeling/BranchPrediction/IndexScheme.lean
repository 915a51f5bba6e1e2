import BranchPrediction.Addr
import BranchPrediction.History
/-!
# Table indices from addresses and history

A table of `2 ^ n` cells is selected by `n` bits: the index field of the branch
address, alone or mixed with the global history. History that is longer than
the index is either cut off or folded, chunk by chunk, into the index width.

## Main definitions

* `foldHistory`: the exclusive or of the chunks of a history
* `IndexScheme`: the three ways to mix address and history
* `IndexScheme.index`: the selected cell
-/

namespace BranchPrediction

/-- The exclusive or of the first `n` chunks of `width` bits of `bits`. -/
def xorChunks (width bits : Nat) : Nat → Nat
  | 0 => 0
  | n + 1 => (bits &&& mask width) ^^^ xorChunks width (bits >>> width) n

/-- The low `len` bits of `bits`, cut into chunks of `width` bits that are
combined by exclusive or. The last chunk is padded with zeros. -/
def foldHistory (bits len width : Nat) : Nat :=
  if width = 0 then 0
  else xorChunks width (bits &&& mask len) ((len + width - 1) / width)

/-- How an address and a history select a table cell. -/
inductive IndexScheme where
  /-- The address alone. -/
  | direct
  /-- The address mixed with the newest outcomes. -/
  | xor
  /-- The address mixed with the folded history. -/
  | folded
  deriving DecidableEq

namespace IndexScheme

/-- The cell of a table of `2 ^ n` cells that `pc` selects under `h`. -/
def index (s : IndexScheme) (pc : Addr) (h : History) (n : Nat) : Nat :=
  match s with
  | direct => pc.wordIndex n
  | xor => pc.wordIndex n ^^^ h.lowBits n
  | folded => pc.wordIndex n ^^^ foldHistory h.bits h.len n

end IndexScheme

theorem xorChunks_lt (width bits n : Nat) : xorChunks width bits n < 2 ^ min width 64 := by
  induction n generalizing bits with
  | zero => exact Nat.two_pow_pos _
  | succ n ih => exact Nat.xor_lt_two_pow (and_mask_lt _ _) (ih _)

/-- A folded history fits in the width it was folded to. -/
theorem foldHistory_lt (bits len width : Nat) : foldHistory bits len width < 2 ^ min width 64 := by
  unfold foldHistory
  split
  · exact Nat.two_pow_pos _
  · exact xorChunks_lt _ _ _

/-- A history that is not longer than the index is folded to itself. -/
theorem foldHistory_of_le {bits len width : Nat} (nonempty : 0 < len) (short : len ≤ width) :
    foldHistory bits len width = bits &&& mask len &&& mask width := by
  -- there is one chunk, and it is the whole history
  have one : (len + width - 1) / width = 1 :=
    Nat.div_eq_of_lt_le (by omega) (by omega)
  rw [foldHistory, if_neg (by omega), one, xorChunks, xorChunks, Nat.xor_zero]

/-- Every scheme selects one of the `2 ^ n` cells. -/
theorem IndexScheme.index_lt (s : IndexScheme) (pc : Addr) (h : History) (n : Nat) :
    s.index pc h n < 2 ^ min n 64 := by
  cases s with
  | direct => exact pc.wordIndex_lt n
  | xor => exact Nat.xor_lt_two_pow (pc.wordIndex_lt n) (and_mask_lt _ _)
  | folded => exact Nat.xor_lt_two_pow (pc.wordIndex_lt n) (foldHistory_lt _ _ _)

end BranchPrediction
