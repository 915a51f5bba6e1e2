import Mathlib.Data.Nat.Cast.Order.Field
import BranchPrediction.Decimal.Shortest
import BranchPrediction.Proofs.Decimal.Rounding
/-!
# Shortest decimals are near

The digits of a double are looked for on one decimal grid after the other, from coarse
to fine. A neighbour of the double on a grid is taken if it lies in the interval of the
numbers that are read back as this double, and this interval ends half way to the next
double on either side, or before that. So whatever is found is off by half the distance
of the doubles at most.

Something is found, since the last grid is fine enough. It has seventeen digits before
its steps, so its steps are at most `10 ^ (-16)` times the double, and the half of such
a step is shorter than the way from the double to either end of its interval. The
mantissa of a double has only 53 bits; it would have to be as large as `10 ^ 16` for the
interval to be shorter.

## Main definitions

* `Decimal.Interval.lowest`, `Decimal.Interval.exact`, `Decimal.Interval.highest`: the ends
  of an interval and the double in it

## Main results

* `Decimal.Interval.between_of_contains`: what lies in an interval
* `Decimal.Interval.nearest?_ne_none`: a fine grid has a point in it
* `Decimal.Interval.zpow_magnitude_le`: the size of the double
* `Decimal.shortest_near`: the digits that are found
-/

namespace BranchPrediction.Decimal

/-- A power of an integer exponent as a fraction. -/
theorem zpow_eq_div {b : ℚ} (nonzero : b ≠ 0) (e : ℤ) : b ^ e = b ^ e.toNat / b ^ (-e).toNat := by
  rw [← zpow_natCast, ← zpow_natCast, ← zpow_sub₀ nonzero]
  congr 1
  omega

/-! ## Intervals -/

namespace Interval

/-- The lower end. -/
def lowest (i : Interval) : ℚ :=
  i.low / i.den

/-- The double itself. -/
def exact (i : Interval) : ℚ :=
  i.value / i.den

/-- The upper end. -/
def highest (i : Interval) : ℚ :=
  i.high / i.den

variable {i : Interval} {exponent : ℤ}

/-- Numbers are compared after both sides were multiplied by their denominators. -/
theorem le_candidate_iff (positive : 0 < i.den) (low digits : Nat) :
    low * 10 ^ (-exponent).toNat ≤ digits * 10 ^ exponent.toNat * i.den ↔
      (low : ℚ) / i.den ≤ digits * 10 ^ exponent := by
  have den : (0 : ℚ) < i.den := by exact_mod_cast positive
  rw [zpow_eq_div (by norm_num) exponent, ← mul_div_assoc, div_le_div_iff₀ den (by positivity)]
  norm_cast

theorem candidate_le_iff (positive : 0 < i.den) (high digits : Nat) :
    digits * 10 ^ exponent.toNat * i.den ≤ high * 10 ^ (-exponent).toNat ↔
      digits * 10 ^ exponent ≤ (high : ℚ) / i.den := by
  have den : (0 : ℚ) < i.den := by exact_mod_cast positive
  rw [zpow_eq_div (by norm_num) exponent, ← mul_div_assoc, div_le_div_iff₀ (by positivity) den]
  norm_cast

/-- What lies in an interval lies between its ends. -/
theorem between_of_contains (positive : 0 < i.den) {digits : Nat}
    (contained : i.contains digits exponent = true) :
    i.lowest ≤ digits * 10 ^ exponent ∧ digits * 10 ^ exponent ≤ i.highest := by
  rw [lowest, highest, ← le_candidate_iff positive, ← candidate_le_iff positive]
  unfold contains at contained
  split at contained
  · simpa using contained
  · simp only [Bool.and_eq_true, decide_eq_true_eq] at contained
    exact ⟨contained.1.le, contained.2.le⟩

/-- What lies strictly between the ends of an interval lies in it. -/
theorem contains_of_between (positive : 0 < i.den) {digits : Nat}
    (above : i.lowest < digits * 10 ^ exponent) (below : digits * 10 ^ exponent < i.highest) :
    i.contains digits exponent = true := by
  have above : i.low * 10 ^ (-exponent).toNat < digits * 10 ^ exponent.toNat * i.den :=
    not_le.mp (mt (candidate_le_iff positive _ _).mp above.not_ge)
  have below : digits * 10 ^ exponent.toNat * i.den < i.high * 10 ^ (-exponent).toNat :=
    not_le.mp (mt (le_candidate_iff positive _ _).mp below.not_ge)
  unfold contains
  split
  · simpa using ⟨above.le, below.le⟩
  · simpa using ⟨above, below⟩

theorem contains_of_nearest? {digits : Nat} (found : i.nearest? exponent = some digits) :
    i.contains digits exponent = true := by
  -- a neighbour is taken only after it was found to lie in the interval
  unfold nearest? at found
  dsimp only at found
  split at found
  case h_1 below above =>
    split at found <;> obtain rfl := Option.some.inj found
    · exact above
    · exact below
  case h_2 below _ =>
    obtain rfl := Option.some.inj found
    exact below
  case h_3 _ above =>
    obtain rfl := Option.some.inj found
    exact above
  case h_4 => cases found

/-- A grid whose steps are less than twice the way to either end has a point in the interval. -/
theorem nearest?_ne_none (positive : 0 < i.den)
    (down : 10 ^ exponent < 2 * (i.exact - i.lowest))
    (up : 10 ^ exponent < 2 * (i.highest - i.exact)) : i.nearest? exponent ≠ none := by
  let n := i.value * 10 ^ (-exponent).toNat / (i.den * 10 ^ exponent.toNat)
  have step : (0 : ℚ) < 10 ^ exponent := zpow_pos (by norm_num) _
  have scaled (m : Nat) : m * 10 ^ exponent.toNat * i.den = m * (i.den * 10 ^ exponent.toNat) := by
    ring
  have unit : 0 < i.den * 10 ^ exponent.toNat := by positivity
  -- the grid points on both sides of the double, one of which is not farther than half a step
  have below : n * 10 ^ exponent ≤ i.exact := by
    rw [exact, ← candidate_le_iff positive, scaled]
    exact Nat.div_mul_le_self _ _
  have above : i.exact < (n + 1 : Nat) * 10 ^ exponent := by
    rw [← not_le, exact, ← candidate_le_iff positive, scaled, ← Nat.le_div_iff_mul_le unit]
    exact Nat.not_succ_le_self n
  have one : i.contains n exponent = true ∨ i.contains (n + 1) exponent = true := by
    push_cast at above
    by_cases near : 2 * (i.exact - n * 10 ^ exponent) ≤ 10 ^ exponent
    · exact .inl (contains_of_between positive (by linarith) (by linarith))
    · refine .inr (contains_of_between positive ?_ ?_) <;> push_cast <;> linarith
  unfold nearest?
  dsimp only
  split
  case h_4 notBelow notAbove =>
    rcases one with contained | contained
    · exact absurd (contained.symm.trans notBelow) (by decide)
    · exact absurd (contained.symm.trans notAbove) (by decide)
  all_goals exact Option.some_ne_none _

/-! ## The size of a double -/

theorem lt_pow_length_toDigits (n : Nat) : n < 10 ^ (Nat.toDigits 10 n).length :=
  (Nat.length_toDigits_le_iff (by decide) Nat.length_toDigits_pos).mp (Nat.le_refl _)

theorem pow_length_toDigits_le {n : Nat} (positive : 0 < n) :
    10 ^ ((Nat.toDigits 10 n).length - 1) ≤ n := by
  by_cases single : (Nat.toDigits 10 n).length = 1
  · rw [single]
    exact positive
  · have some : 0 < (Nat.toDigits 10 n).length := Nat.length_toDigits_pos
    refine not_lt.mp fun small => ?_
    have short := (Nat.length_toDigits_le_iff (by decide) (by omega)).mpr small
    omega

/-- The number of digits before the point says how large the double is at least. -/
theorem zpow_magnitude_le (positive : 0 < i.den) (nonzero : 0 < i.value) :
    (10 : ℚ) ^ (i.magnitude - 1) ≤ i.exact := by
  have den : (0 : ℚ) < i.den := by exact_mod_cast positive
  rw [magnitude, exact]
  split
  case isTrue large =>
    have whole : 0 < i.value / i.den := Nat.div_pos large positive
    have some : 0 < (Nat.toDigits 10 (i.value / i.den)).length := Nat.length_toDigits_pos
    have power : ((Nat.toDigits 10 (i.value / i.den)).length : ℤ) - 1 =
        ((Nat.toDigits 10 (i.value / i.den)).length - 1 : Nat) := by
      omega
    rw [power, zpow_natCast]
    calc (10 : ℚ) ^ ((Nat.toDigits 10 (i.value / i.den)).length - 1)
        ≤ (i.value / i.den : Nat) := by exact_mod_cast pow_length_toDigits_le whole
      _ ≤ i.value / i.den := Nat.cast_div_le
  case isFalse small =>
    -- the reciprocal is counted instead, rounded up
    let count := (i.den + i.value - 1) / i.value
    let length := (Nat.toDigits 10 (count - 1)).length
    have bound : count ≤ 10 ^ length := Nat.le_of_pred_lt (lt_pow_length_toDigits _)
    have covers : i.den ≤ 10 ^ length * i.value := by
      have ceiling : i.den + i.value - 1 < (count + 1) * i.value :=
        (Nat.div_lt_iff_lt_mul nonzero).mp (Nat.lt_succ_self _)
      rw [Nat.add_mul, Nat.one_mul] at ceiling
      exact Nat.le_trans (by omega) (Nat.mul_le_mul_right _ bound)
    have power : (1 : ℤ) - length - 1 = -(length : ℤ) := by omega
    change (10 : ℚ) ^ (1 - (length : ℤ) - 1) ≤ _
    rw [power, zpow_neg, zpow_natCast, inv_eq_one_div, div_le_div_iff₀ (by positivity) den]
    have covers : (i.den : ℚ) ≤ 10 ^ length * i.value := by exact_mod_cast covers
    linarith

end Interval

/-! ## The interval of a double -/

namespace Interval

theorem den_ofBinary_pos (b : Binary) : 0 < (ofBinary b).den :=
  Nat.two_pow_pos _

/-- The end of the interval of a double, in quarters of its last bit. -/
theorem quarters_div_den (b : Binary) (quarters : Nat) :
    ((quarters * 2 ^ (b.exponent - 2).toNat : Nat) : ℚ) / (ofBinary b).den =
      quarters * 2 ^ (b.exponent - 2) := by
  have opposite : 2 - b.exponent = -(b.exponent - 2) := by omega
  rw [zpow_eq_div two_ne_zero (b.exponent - 2), ← mul_div_assoc]
  simp only [ofBinary, opposite]
  push_cast
  rfl

theorem value_eq_quarters (b : Binary) :
    b.value = (4 * b.mantissa : Nat) * 2 ^ (b.exponent - 2) := by
  have four : (2 : ℚ) ^ b.exponent = 2 ^ (b.exponent - 2) * 4 := by
    rw [zpow_sub₀ two_ne_zero]
    norm_num
  rw [Binary.value, four]
  push_cast
  ring

theorem exact_ofBinary (b : Binary) : (ofBinary b).exact = b.value :=
  (quarters_div_den b (4 * b.mantissa)).trans (value_eq_quarters b).symm

/-- The upper end is half a bit away. -/
theorem highest_ofBinary (b : Binary) :
    (ofBinary b).highest = b.value + 2 * 2 ^ (b.exponent - 2) := by
  have quarters : (ofBinary b).highest = (4 * b.mantissa + 2 : Nat) * 2 ^ (b.exponent - 2) :=
    quarters_div_den b (4 * b.mantissa + 2)
  rw [quarters, value_eq_quarters]
  push_cast
  ring

/-- The lower end is half a bit away, or a quarter below a power of two. -/
theorem lowest_ofBinary {b : Binary} (positive : 0 < b.mantissa) :
    ∃ quarters : Nat, (ofBinary b).lowest = b.value - quarters * 2 ^ (b.exponent - 2) ∧
      (quarters = 2 ∨ quarters = 1 ∧ b.mantissa = 2 ^ 52) := by
  let below := if b.mantissa = 2 ^ 52 ∧ b.exponent ≠ -1074 then 1 else 2
  have either : below = 2 ∨ below = 1 ∧ b.mantissa = 2 ^ 52 := by
    by_cases power : b.mantissa = 2 ^ 52 ∧ b.exponent ≠ -1074
    · exact .inr ⟨if_pos power, power.1⟩
    · exact .inl (if_neg power)
  have quarters : (ofBinary b).lowest = (4 * b.mantissa - below : Nat) * 2 ^ (b.exponent - 2) :=
    quarters_div_den b (4 * b.mantissa - below)
  refine ⟨below, ?_, either⟩
  rw [quarters, value_eq_quarters, Nat.cast_sub (by omega)]
  ring

end Interval

/-! ## The digits that are found -/

theorem value_trimZeros (digits : Nat) (exponent : ℤ) (fuel : Nat) :
    ((trimZeros digits exponent fuel).1 : ℚ) * 10 ^ (trimZeros digits exponent fuel).2 =
      digits * 10 ^ exponent := by
  induction fuel generalizing digits exponent with
  | zero => rfl
  | succ fuel ih =>
    rw [trimZeros]
    split
    · next zero =>
      have tens : (digits : ℚ) = (digits / 10 : Nat) * 10 := by
        exact_mod_cast (Nat.div_mul_cancel (Nat.dvd_of_mod_eq_zero zero)).symm
      rw [ih, zpow_add_one₀ (by norm_num), tens]
      ring
    · rfl

/-- A grid of seventeen digits has a point in the interval of every double. -/
theorem nearest?_seventeen_ne_none {b : Binary} (positive : 0 < b.mantissa)
    (narrow : b.mantissa < 2 ^ 53) :
    (Interval.ofBinary b).nearest? ((Interval.ofBinary b).magnitude - 17) ≠ none := by
  have nonzero : 0 < (Interval.ofBinary b).value :=
    Nat.mul_pos (Nat.mul_pos (by decide) positive) (Nat.two_pow_pos _)
  have size := Interval.zpow_magnitude_le (Interval.den_ofBinary_pos b) nonzero
  have step : (10 : ℚ) ^ ((Interval.ofBinary b).magnitude - 1) =
      10 ^ ((Interval.ofBinary b).magnitude - 17) * 10 ^ 16 := by
    rw [← zpow_natCast, ← zpow_add₀ (by norm_num)]
    congr 1
    omega
  have unit : (0 : ℚ) < 2 ^ (b.exponent - 2) := zpow_pos two_pos _
  have bits : (b.mantissa : ℚ) * 2 ^ (b.exponent - 2) < 2 ^ 53 * 2 ^ (b.exponent - 2) :=
    mul_lt_mul_of_pos_right (by exact_mod_cast narrow) unit
  obtain ⟨quarters, lowest, either⟩ := Interval.lowest_ofBinary positive
  rw [step, Interval.exact_ofBinary, Interval.value_eq_quarters] at size
  push_cast at size
  -- a step is `10 ^ (-16)` of the double at most, and its mantissa is less than `2 ^ 53`
  refine Interval.nearest?_ne_none (Interval.den_ofBinary_pos b) ?_ ?_
  · rw [Interval.exact_ofBinary, lowest, sub_sub_cancel]
    rcases either with rfl | ⟨rfl, power⟩
    · push_cast
      linarith
    · -- the way down is only half as long, but so is the mantissa
      rw [power] at size
      push_cast at size ⊢
      linarith
  · rw [Interval.exact_ofBinary, Interval.highest_ofBinary, add_sub_cancel_left]
    linarith

/-- The digits are those of a number in the interval. -/
theorem shortest_eq {b : Binary} (positive : 0 < b.mantissa) (narrow : b.mantissa < 2 ^ 53) :
    ∃ digits exponent, (Interval.ofBinary b).contains digits exponent = true ∧
      shortest b = trimZeros digits exponent 17 := by
  let i := Interval.ofBinary b
  let grid (d : Nat) := i.magnitude - (Int.ofNat d + 1)
  let find (d : Nat) := (i.nearest? (grid d)).map fun digits => (digits, grid d)
  have last : i.nearest? (grid 16) ≠ none := nearest?_seventeen_ne_none positive narrow
  -- the search does not come to its end, since the last grid has a point
  cases search : (List.range 17).findSome? find with
  | none =>
    have missing : find 16 = none := List.findSome?_eq_none_iff.mp search 16 (by decide)
    exact absurd (Option.map_eq_none_iff.mp missing) last
  | some found =>
    obtain ⟨d, -, here⟩ := List.exists_of_findSome?_eq_some search
    obtain ⟨digits, nearest, rfl⟩ := Option.map_eq_some_iff.mp here
    refine ⟨digits, grid d, Interval.contains_of_nearest? nearest, ?_⟩
    have trimmed : shortest b = trimZeros (((List.range 17).findSome? find).getD (0, 0)).1
        (((List.range 17).findSome? find).getD (0, 0)).2 17 := rfl
    rw [trimmed, search, Option.getD_some]

/-- **The shortest decimal of a double is near.** It is positive, and its distance is half
the distance of the doubles at most. -/
theorem shortest_near {b : Binary} (positive : 0 < b.mantissa) (narrow : b.mantissa < 2 ^ 53) :
    0 < (shortest b).1 ∧
      |((shortest b).1 : ℚ) * 10 ^ (shortest b).2 - b.value| ≤ 2 ^ b.exponent / 2 := by
  obtain ⟨digits, exponent, contained, found⟩ := shortest_eq positive narrow
  obtain ⟨above, below⟩ := Interval.between_of_contains (Interval.den_ofBinary_pos b) contained
  obtain ⟨quarters, lowest, either⟩ := Interval.lowest_ofBinary positive
  have unit : (0 : ℚ) < 2 ^ (b.exponent - 2) := zpow_pos two_pos _
  have half : (2 : ℚ) ^ b.exponent / 2 = 2 * 2 ^ (b.exponent - 2) := by
    rw [zpow_sub₀ two_ne_zero]
    ring
  have few : (quarters : ℚ) ≤ 2 := by
    rcases either with rfl | ⟨rfl, -⟩ <;> norm_num
  have one : (1 : ℚ) ≤ b.mantissa := by exact_mod_cast positive
  rw [lowest] at above
  rw [Interval.highest_ofBinary] at below
  -- both ends are half a bit away at most
  constructor
  · -- the lower end is above zero
    have value : 0 < ((shortest b).1 : ℚ) * 10 ^ (shortest b).2 := by
      have size := mul_le_mul_of_nonneg_right one unit.le
      rw [found, value_trimZeros]
      rw [Interval.value_eq_quarters] at above
      push_cast at above
      have ends := mul_le_mul_of_nonneg_right few unit.le
      linarith
    exact Nat.pos_of_ne_zero fun zero => by simp [zero] at value
  · rw [found, value_trimZeros, half, abs_le]
    have ends := mul_le_mul_of_nonneg_right few unit.le
    constructor <;> linarith

end BranchPrediction.Decimal
