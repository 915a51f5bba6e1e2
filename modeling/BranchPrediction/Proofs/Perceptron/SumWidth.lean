import BranchPrediction.Proofs.Perceptron.Training
/-!
# The width of a sum of weights

A signed width holds a bias and some weights, whatever they are, if it holds the
extreme sums. The least weight is one further from zero than the greatest one, and
a weight is subtracted where a branch was not taken. So both extremes come from
least weights: all of them added, bias included, or all of them subtracted from a
greatest bias. The first sum reaches the whole magnitude below zero, and the other
stays one short of it above, which is just what a signed width of that magnitude
holds. The width is the least power of two that reaches the magnitude, so no width
that is less by one holds the first sum.

## Main definitions

* `SignedWithin`: the numbers of a signed width
* `Row.least`, `History.allTaken`: the row and the history of the least sum

## Main results

* `le_two_pow_ceilLog2`, `two_pow_lt_of_lt_ceilLog2`: rounding a logarithm up
* `Row.partialSum_least`: the least sum is attained
* `sumBits_minimal`: the width of a sum is the least that holds all of them
-/

namespace BranchPrediction

/-! ## Widths -/

/-- The numbers of a signed width, in two's complement. -/
def SignedWithin (width : Nat) (x : Int) : Prop :=
  -2 ^ (width - 1) ≤ x ∧ x ≤ 2 ^ (width - 1) - 1

/-- A logarithm that is rounded up reaches its number. -/
theorem le_two_pow_ceilLog2 (m : Nat) : m ≤ 2 ^ ceilLog2 m := by
  unfold ceilLog2
  split
  · next small => exact small
  · have above : m - 1 < 2 ^ (Nat.log2 (m - 1) + 1) := Nat.lt_log2_self
    omega

/-- No lesser exponent does. -/
theorem two_pow_lt_of_lt_ceilLog2 {m k : Nat} (less : k < ceilLog2 m) : 2 ^ k < m := by
  unfold ceilLog2 at less
  split at less
  · exact absurd less (Nat.not_lt_zero k)
  · next large =>
    have below : 2 ^ Nat.log2 (m - 1) ≤ m - 1 := Nat.log2_self_le (by omega)
    have lower : 2 ^ k ≤ 2 ^ Nat.log2 (m - 1) := Nat.pow_le_pow_right (by decide) (by omega)
    omega

section

variable {n bits : Nat} (short : n ≤ 64) (fits : bits ≤ 16)

include short fits

/-- The magnitude of a sum is far from filling a machine word. -/
theorem magnitude_le : (n + 1) * 2 ^ (bits - 1) ≤ 65 * 2 ^ 15 :=
  Nat.mul_le_mul (by omega) (Nat.pow_le_pow_right (by decide) (by omega))

/-- So the word in which it is computed does not matter. -/
theorem sumBits_eq : sumBits n bits = ceilLog2 ((n + 1) * 2 ^ (bits - 1)) + 1 := by
  have small := magnitude_le short fits
  rw [sumBits, Nat.mod_eq_of_lt (by omega)]

end

/-! ## The least sum -/

/-- The least weight of a given width. -/
def Weight.least (bits : Nat) : Weight :=
  .ofInt bits (-2 ^ (bits - 1))

theorem Weight.within_least {bits : Nat} (fits : bits ≤ maxWeightBits) :
    (least bits).Within bits :=
  (within_zero bits).add fits _

theorem Weight.value_least {bits : Nat} (fits : bits ≤ maxWeightBits) :
    (least bits).value = -2 ^ (bits - 1) := by
  have positive := two_pow_pred_pos bits
  rw [least, ofInt, (within_zero bits).value_add fits, value_zero]
  unfold clamp
  omega

/-- The row of a bias and `n` weights that are all the least of their width. -/
def Row.least (n bits : Nat) : Row :=
  ⟨.least bits, Array.replicate n (.least bits)⟩

/-- The register of `n` taken outcomes. -/
def History.allTaken (n : Nat) : History :=
  ⟨2 ^ n - 1, n⟩

theorem History.within_allTaken (n : Nat) : (allTaken n).Within n :=
  ⟨rfl, Nat.sub_lt (Nat.two_pow_pos n) Nat.one_pos⟩

theorem History.bit_allTaken {n i : Nat} (inside : i < n) : (allTaken n).bit i = true := by
  rw [bit, allTaken, Nat.testBit_two_pow_sub_one]
  exact decide_eq_true inside

namespace Row

variable {n bits : Nat} (fits : bits ≤ maxWeightBits)

include fits

theorem within_least (n : Nat) : (least n bits).Within n bits where
  size_eq := Array.size_replicate
  bias := Weight.within_least fits
  weights w member := by
    rw [(Array.mem_replicate.mp member).2]
    exact Weight.within_least fits

/-- Every partial sum attains its lower bound. -/
theorem partialSum_least {k : Nat} (terms : k ≤ n) :
    (least n bits).partialSum (.allTaken n) k = -((k + 1) * 2 ^ (bits - 1)) := by
  induction k with
  | zero =>
    rw [partialSum, least, Weight.value_least fits]
    exact congrArg _ (Int.one_mul _).symm
  | succ k ih =>
    have inside : k < (least n bits).weights.size := by rwa [(within_least fits n).size_eq]
    have taken : (History.allTaken n).bit k = true := History.bit_allTaken terms
    have weight : (least n bits).weights[k] = .least bits := Array.getElem_replicate _
    rw [partialSum, ih (Nat.le_of_succ_le terms), term, if_pos taken, weight_of_lt inside, weight,
      Weight.value_least fits, ← Int.neg_add]
    push_cast
    rw [Int.add_mul (k + 1), Int.one_mul]

theorem output_least : (least n bits).output (.allTaken n) = -((n + 1) * 2 ^ (bits - 1)) := by
  rw [output, (within_least fits n).size_eq]
  exact partialSum_least fits (Nat.le_refl n)

end Row

/-! ## The width -/

section

variable {n bits : Nat} (short : n ≤ 64) (fits : bits ≤ 16)

include short fits

/-- Every partial sum is a number of the width, since it has no more terms than the whole
sum. -/
theorem Row.Within.signedWithin_partialSum {r : Row} (within : r.Within n bits) (h : History)
    {k : Nat} (terms : k ≤ n) : SignedWithin (sumBits n bits) (r.partialSum h k) := by
  have bounds := within.partialSum_mem h k
  -- the bounds of the partial sum, those of the whole sum, and those of the width
  have fewer : (k + 1) * 2 ^ (bits - 1) ≤ (n + 1) * 2 ^ (bits - 1) :=
    Nat.mul_le_mul_right _ (by omega)
  have reached : ((k : Int) + 1) * 2 ^ (bits - 1) ≤ 2 ^ ceilLog2 ((n + 1) * 2 ^ (bits - 1)) := by
    exact_mod_cast Nat.le_trans fewer (le_two_pow_ceilLog2 _)
  rw [SignedWithin, sumBits_eq short fits, Nat.add_sub_cancel]
  omega

/-- The width is that of a 32-bit adder at most. -/
theorem sumBits_le_adder : sumBits n bits ≤ 32 := by
  have small := magnitude_le short fits
  rw [sumBits_eq short fits]
  apply Nat.succ_le_succ
  apply Nat.le_of_not_lt
  intro wide
  have far : 2 ^ 31 < (n + 1) * 2 ^ (bits - 1) := two_pow_lt_of_lt_ceilLog2 wide
  omega

/-- The least sum is below the numbers of a width that is less by one. -/
theorem Row.not_signedWithin_output_least (nonempty : 1 ≤ n) :
    ¬ SignedWithin (sumBits n bits - 1) ((least n bits).output (.allTaken n)) := by
  have two : 2 * 1 ≤ (n + 1) * 2 ^ (bits - 1) :=
    Nat.mul_le_mul (by omega) (Nat.two_pow_pos _)
  have reached := le_two_pow_ceilLog2 ((n + 1) * 2 ^ (bits - 1))
  -- a magnitude of two takes a bit
  have positive : ceilLog2 ((n + 1) * 2 ^ (bits - 1)) ≠ 0 := by
    intro zero
    rw [zero] at reached
    omega
  have narrow : 2 ^ (ceilLog2 ((n + 1) * 2 ^ (bits - 1)) - 1) < (n + 1) * 2 ^ (bits - 1) :=
    two_pow_lt_of_lt_ceilLog2 (by omega)
  have narrow' : (2 : Int) ^ (ceilLog2 ((n + 1) * 2 ^ (bits - 1)) - 1) <
      (n + 1) * 2 ^ (bits - 1) := by
    exact_mod_cast narrow
  rintro ⟨least, -⟩
  rw [output_least fits, sumBits_eq short fits, Nat.add_sub_cancel] at least
  omega

end

/-- **The width of a sum is minimal.** For histories of up to 64 outcomes and weights of up
to 16 bits, the width holds the output of every row under every history, and every partial
sum on the way to it, while a width that is less by one does not hold all outputs. An adder
of 32 bits is wide enough throughout. -/
theorem sumBits_minimal {n bits : Nat} (nonempty : 1 ≤ n) (short : n ≤ 64) (fits : bits ≤ 16) :
    (∀ (r : Row) (h : History), r.Within n bits →
      SignedWithin (sumBits n bits) (r.output h) ∧
        ∀ k ≤ n, SignedWithin (sumBits n bits) (r.partialSum h k)) ∧
      (∃ (r : Row) (h : History), r.Within n bits ∧ h.Within n ∧
        ¬ SignedWithin (sumBits n bits - 1) (r.output h)) ∧
      sumBits n bits ≤ 32 := by
  refine ⟨fun r h within => ⟨?_, fun k terms => ?_⟩, ?_, sumBits_le_adder short fits⟩
  · rw [Row.output, within.size_eq]
    exact within.signedWithin_partialSum short fits h (Nat.le_refl n)
  · exact within.signedWithin_partialSum short fits h terms
  · exact ⟨.least n bits, .allTaken n, Row.within_least fits n, History.within_allTaken n,
      Row.not_signedWithin_output_least short fits nonempty⟩

/-- With 63 outcomes and 16 bits the magnitude is a power of two, and the least sum is the
least number of its width. -/
theorem sumBits_minimal_full :
    1 ≤ 63 ∧ 63 ≤ 64 ∧ 16 ≤ 16 ∧ sumBits 63 16 = 22 ∧
      (∀ (r : Row) (h : History), r.Within 63 16 →
        -2 ^ 21 ≤ r.output h ∧ r.output h ≤ 2 ^ 21 - 1) ∧
      ∃ (r : Row) (h : History), r.Within 63 16 ∧ h.Within 63 ∧
        ¬ (-2 ^ 20 ≤ r.output h ∧ r.output h ≤ 2 ^ 20 - 1) := by
  have width : sumBits 63 16 = 22 := by decide
  have short : 63 ≤ 64 := by decide
  have fits : 16 ≤ 16 := by decide
  obtain ⟨held, exceeded, -⟩ := sumBits_minimal (by decide) short fits
  rw [width] at exceeded
  simp only [width] at held
  exact ⟨by decide, short, fits, width, fun r h within => (held r h within).1, exceeded⟩

end BranchPrediction
