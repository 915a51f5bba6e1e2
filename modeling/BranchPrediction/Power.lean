/-!
# Powers and masks

Sizes and ranges are powers of two throughout, and a word with its low bits set
masks the remainder by one.

Powers of numbers are the built-in ones. Algebra libraries declare powers of
their own, which agree on numbers but are other terms, so the built-in ones are
given priority.

## Main definitions

* `mask`: the word whose low bits are set
-/

attribute [instance (high), default_instance (high + 1)] instPowNat

namespace BranchPrediction

/-- The word whose low `n` bits are set; a word has 64 bits. -/
def mask (n : Nat) : Nat :=
  1 <<< min n 64 - 1

theorem mask_eq (n : Nat) : mask n = 2 ^ min n 64 - 1 := by
  rw [mask, Nat.one_shiftLeft]

/-- Masking keeps the remainder by a power of two. -/
theorem and_mask (x n : Nat) : x &&& mask n = x % 2 ^ min n 64 := by
  rw [mask_eq]
  exact Nat.and_two_pow_sub_one_eq_mod x (min n 64)

theorem and_mask_lt (x n : Nat) : x &&& mask n < 2 ^ min n 64 := by
  rw [and_mask]
  exact Nat.mod_lt _ (Nat.two_pow_pos _)

/-- A word that fits below the mask is not changed by it. -/
theorem and_mask_of_lt {x n : Nat} (fits : n ≤ 64) (small : x < 2 ^ n) : x &&& mask n = x := by
  rw [and_mask, Nat.min_eq_left fits, Nat.mod_eq_of_lt small]

end BranchPrediction
