import Mathlib.Algebra.Order.Field.Basic
import Mathlib.Algebra.Order.Field.Power
import Mathlib.Algebra.Order.Ring.Rat
import Mathlib.Tactic.FieldSimp
import Mathlib.Tactic.Linarith
import Mathlib.Tactic.Positivity
import Mathlib.Tactic.Ring
import BranchPrediction.Decimal.Fixed
/-!
# Decimals with fixed places are rounded

A double is a rational number, and its 64 bits say which one. What it means to show
a double with two decimal places can therefore be said without saying how: the text
is a number of hundredths, and no other number of hundredths is nearer to the double,
save that of two equally near ones the even one is shown.

The digits are computed by a division with remainder. The remainder is compared with
half the divisor, and this comparison tells on which side of the middle the exact
quotient lies.

## Main definitions

* `Decimal.magnitude`, `Decimal.negative`: the number that the bits of a double stand for
* `Decimal.Rounds`: the nearest integer to a rational number
* `Decimal.ShowsHundredths`: a double with two decimal places

## Main results

* `Decimal.Binary.value_ofFloat`: mantissa and exponent of a double
* `Decimal.rounds_roundDiv`: a rounded quotient
* `Decimal.showsHundredths_fixed`: what is written is what is meant
-/

namespace BranchPrediction.Decimal

/-! ## The value of a double -/

/-- Whether the sign bit of a double is set. -/
def negative (x : Float) : Bool :=
  2 ^ 63 ≤ x.toBits.toNat

/-- The bits between sign and fraction. -/
def scale (x : Float) : Nat :=
  x.toBits.toNat / 2 ^ 52 % 2 ^ 11

/-- The low bits of a double. -/
def fraction (x : Float) : Nat :=
  x.toBits.toNat % 2 ^ 52

/-- The magnitude of a finite double. The least scale is that of the numbers without a
leading one. -/
def magnitude (x : Float) : ℚ :=
  if scale x = 0 then fraction x / 2 ^ 52 * 2 ^ (-1022 : ℤ)
  else (1 + fraction x / 2 ^ 52) * 2 ^ ((scale x : ℤ) - 1023)

/-- The distance of the doubles around a finite double that have the same scale. -/
def spacing (x : Float) : ℚ :=
  2 ^ ((max 1 (scale x) : ℤ) - 1075)

namespace Binary

/-- The magnitude of a number in parts. -/
def value (b : Binary) : ℚ :=
  b.mantissa * 2 ^ b.exponent

theorem ofFloat_eq (x : Float) :
    ofFloat x = if scale x = 0 then ⟨x.toBits.toNat.testBit 63, fraction x, -1074⟩
      else ⟨x.toBits.toNat.testBit 63, 2 ^ 52 + fraction x, Int.ofNat (scale x) - 1075⟩ :=
  rfl

theorem fraction_lt (x : Float) : fraction x < 2 ^ 52 :=
  Nat.mod_lt _ (Nat.two_pow_pos 52)

theorem mantissa_ofFloat_lt (x : Float) : (ofFloat x).mantissa < 2 ^ 53 := by
  have := fraction_lt x
  rw [ofFloat_eq]
  split
  · exact Nat.lt_trans this (by decide)
  · exact Nat.lt_of_lt_of_le (Nat.add_lt_add_left this _) (by decide)

theorem negative_ofFloat (x : Float) : (ofFloat x).negative = Decimal.negative x := by
  have sign : (ofFloat x).negative = x.toBits.toNat.testBit 63 := by
    rw [ofFloat_eq]
    split <;> rfl
  have bound : x.toBits.toNat < 2 ^ 64 := x.toBits.toNat_lt
  rw [sign, Decimal.negative, Nat.testBit_eq_decide_div_mod_eq, decide_eq_decide]
  omega

theorem two_zpow_exponent_ofFloat (x : Float) : (2 : ℚ) ^ (ofFloat x).exponent = spacing x := by
  rw [ofFloat_eq, spacing]
  split
  · next least => simp [least]
  · next greater =>
    have one : max 1 (scale x : ℤ) = scale x := by omega
    rw [one]
    rfl

theorem value_ofFloat (x : Float) : (ofFloat x).value = magnitude x := by
  -- the point is moved behind the last bit of the fraction
  have moved (q : ℚ) (e : ℤ) : q / 2 ^ 52 * 2 ^ e = q * 2 ^ (e - 52) := by
    rw [zpow_sub₀ two_ne_zero, div_mul_eq_mul_div, mul_div_assoc]
    norm_cast
  rw [value, ofFloat_eq, magnitude]
  split
  · rw [moved]
    rfl
  · have leading : (1 + fraction x / 2 ^ 52 : ℚ) = (2 ^ 52 + fraction x) / 2 ^ 52 := by
      rw [add_div, div_self (by positivity)]
    have same : (scale x : ℤ) - 1023 - 52 = Int.ofNat (scale x) - 1075 := by
      rw [Int.ofNat_eq_natCast]
      omega
    rw [leading, moved, same]
    push_cast
    rfl

end Binary

/-! ## The nearest integer -/

/-- An integer nearest to a number that is not negative; of two of them the even one. -/
structure Rounds (q : ℚ) (n : Nat) : Prop where
  near : |q - n| ≤ 1 / 2
  even : |q - n| = 1 / 2 → Even n

theorem rounds_natCast (n : Nat) : Rounds n n := by
  constructor <;> simp

theorem rounds_roundDiv (num : Nat) {den : Nat} (positive : 0 < den) :
    Rounds ((num : ℚ) / den) (roundDiv num den) := by
  have unit : (0 : ℚ) < den := by exact_mod_cast positive
  -- the quotient and what is left of it
  have split : (num : ℚ) / den = (num / den : Nat) + ((num % den : Nat) : ℚ) / den := by
    have whole : (num : ℚ) = den * (num / den : Nat) + (num % den : Nat) := by
      exact_mod_cast (Nat.div_add_mod num den).symm
    rw [div_eq_iff unit.ne', add_mul, div_mul_cancel₀ _ unit.ne', mul_comm _ (den : ℚ), ← whole]
  have rest : ((num % den : Nat) : ℚ) / den < 1 := by
    rw [div_lt_one unit]
    exact_mod_cast Nat.mod_lt num positive
  have start : 0 ≤ ((num % den : Nat) : ℚ) / den := by positivity
  have less : 2 * (num % den) < den ↔ ((num % den : Nat) : ℚ) / den < 1 / 2 := by
    rw [div_lt_div_iff₀ unit two_pos]
    norm_cast
    omega
  have more : den < 2 * (num % den) ↔ 1 / 2 < ((num % den : Nat) : ℚ) / den := by
    rw [div_lt_div_iff₀ two_pos unit]
    norm_cast
    omega
  rw [split, roundDiv]
  generalize num / den = q
  generalize ((num % den : Nat) : ℚ) / den = x at *
  split
  · next low =>
    have low := less.mp low
    have distance : |(q : ℚ) + x - q| = x := by rw [add_sub_cancel_left, abs_of_nonneg start]
    exact ⟨by linarith, fun tie => by linarith⟩
  · next notLow =>
    split
    · next high =>
      have high := more.mp high
      have distance : |(q : ℚ) + x - (q + 1 : Nat)| = 1 - x := by
        push_cast
        rw [add_sub_add_left_eq_sub, abs_sub_comm, abs_of_pos (by linarith)]
      exact ⟨by linarith, fun tie => by linarith⟩
    · next notHigh =>
      -- exactly in the middle
      have middle : x = 1 / 2 := le_antisymm (not_lt.mp (mt more.mpr notHigh))
        (not_lt.mp (mt less.mpr notLow))
      have distance : |(q : ℚ) + x - (q + q % 2 : Nat)| = 1 / 2 := by
        rcases Nat.mod_two_eq_zero_or_one q with parity | parity <;>
          · rw [parity, middle]
            push_cast
            norm_num
      have even : Even (q + q % 2) := by
        rw [Nat.even_add, Nat.even_iff, Nat.even_iff, Nat.mod_mod]
      exact ⟨distance.le, fun _ => even⟩

/-! ## Two decimal places -/

theorem Binary.rounds_units (b : Binary) (places : Nat) :
    Rounds (b.value * 10 ^ places) (b.units places) := by
  rw [value, units]
  cases b.exponent with
  | ofNat e =>
    have exact : (b.mantissa : ℚ) * 2 ^ Int.ofNat e * 10 ^ places =
        (b.mantissa * 10 ^ places * 2 ^ e : Nat) := by
      rw [Int.ofNat_eq_natCast, zpow_natCast]
      push_cast
      ring
    rw [exact]
    exact rounds_natCast _
  | negSucc e =>
    have quotient : (b.mantissa : ℚ) * 2 ^ Int.negSucc e * 10 ^ places =
        (b.mantissa * 10 ^ places : Nat) / (2 ^ (e + 1) : Nat) := by
      rw [zpow_negSucc]
      push_cast
      field_simp
    rw [quotient]
    exact rounds_roundDiv _ (Nat.two_pow_pos _)

/-- The two decimal digits of a number below one hundred. -/
def twoDigits (n : Nat) : String :=
  String.ofList [Nat.digitChar (n / 10), Nat.digitChar (n % 10)]

/-- A text shows a double with two decimal places, rounded. The sign bit is shown even where
the digits are all zero. -/
def ShowsHundredths (x : Float) (text : String) : Prop :=
  ∃ units, Rounds (magnitude x * 100) units ∧
    text = (if negative x then "-" else "") ++ toString (units / 100) ++ "." ++
      twoDigits (units % 100)

theorem padded_two {n : Nat} (small : n < 100) : padded 2 n = twoDigits n := by
  rw [padded, twoDigits]
  by_cases single : n < 10
  · rw [Nat.toDigits_of_lt_base single, Nat.div_eq_of_lt single, Nat.mod_eq_of_lt single]
    rfl
  · rw [Nat.toDigits_of_base_le (by decide) (by omega), Nat.toDigits_of_lt_base (by omega)]
    rfl

theorem showsHundredths_fixed (x : Float) : ShowsHundredths x (fixed 2 x) := by
  refine ⟨(Binary.ofFloat x).units 2, ?_, ?_⟩
  · have rounds := (Binary.ofFloat x).rounds_units 2
    rw [Binary.value_ofFloat] at rounds
    norm_num at rounds
    exact rounds
  · rw [fixed, Binary.negative_ofFloat, ← padded_two (Nat.mod_lt _ (by decide))]

end BranchPrediction.Decimal
