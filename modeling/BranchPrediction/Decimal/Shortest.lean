import BranchPrediction.Decimal.Binary
/-!
# Shortest decimals

Of the decimals that are read back as a given double, the one with the fewest
digits, and of those the nearest. A decimal is read back as a double if it lies
between the midpoints to the two neighbouring doubles; the midpoints themselves
belong to the double with the even mantissa.

## Main definitions

* `Decimal.Interval`: the numbers that are read back as one double
* `Decimal.Interval.contains`: whether a decimal is among them
* `Decimal.shortest`: digits and exponent of the shortest one
-/

namespace BranchPrediction.Decimal

/-- The numbers that are read back as one positive double, as fractions with a
common denominator. -/
structure Interval where
  low : Nat
  /-- The double itself. -/
  value : Nat
  high : Nat
  den : Nat
  /-- Whether the ends belong to the interval. -/
  closed : Bool

/-- The interval of a positive double. Below a power of two the neighbouring
double is only half as far away. -/
def Interval.ofBinary (b : Binary) : Interval :=
  let below := if b.mantissa = 2 ^ 52 ∧ b.exponent ≠ -1074 then 1 else 2
  let scale := 2 ^ (b.exponent - 2).toNat
  { low := (4 * b.mantissa - below) * scale
    value := 4 * b.mantissa * scale
    high := (4 * b.mantissa + 2) * scale
    den := 2 ^ (2 - b.exponent).toNat
    closed := b.mantissa % 2 == 0 }

namespace Interval

/-- Whether `digits * 10 ^ exponent` lies in the interval. -/
def contains (i : Interval) (digits : Nat) (exponent : Int) : Bool :=
  let candidate := digits * 10 ^ exponent.toNat * i.den
  let scale := 10 ^ (-exponent).toNat
  if i.closed then i.low * scale ≤ candidate && candidate ≤ i.high * scale
  else i.low * scale < candidate && candidate < i.high * scale

/-- The number of digits before the decimal point; zero or less for numbers
below one tenth. -/
def magnitude (i : Interval) : Int :=
  if i.den ≤ i.value then (Nat.toDigits 10 (i.value / i.den)).length
  else 1 - (Nat.toDigits 10 ((i.den + i.value - 1) / i.value - 1)).length

/-- The neighbour of the double on the grid of multiples of `10 ^ exponent` that
lies in the interval and is nearest to the double. -/
def nearest? (i : Interval) (exponent : Int) : Option Nat :=
  let num := i.value * 10 ^ (-exponent).toNat
  let den := i.den * 10 ^ exponent.toNat
  let below := num / den
  let rest := 2 * (num % den)
  let up := den < rest || (den == rest && below % 2 == 1)
  match i.contains below exponent, i.contains (below + 1) exponent with
  | true, true => some (if up then below + 1 else below)
  | true, false => some below
  | false, true => some (below + 1)
  | false, false => none

end Interval

/-- Digits and exponent without the trailing zeros of the digits, of which there
are at most `fuel`. -/
def trimZeros (digits : Nat) (exponent : Int) : Nat → Nat × Int
  | 0 => (digits, exponent)
  | fuel + 1 =>
    if digits % 10 = 0 then trimZeros (digits / 10) (exponent + 1) fuel else (digits, exponent)

/-- Digits and exponent of the shortest decimal of a positive double. Seventeen
digits are always enough. -/
def shortest (b : Binary) : Nat × Int :=
  let i := Interval.ofBinary b
  let found := (List.range 17).findSome? fun d =>
    let exponent := i.magnitude - (Int.ofNat d + 1)
    (i.nearest? exponent).map fun digits => (digits, exponent)
  let (digits, exponent) := found.getD (0, 0)
  trimZeros digits exponent 17

end BranchPrediction.Decimal
