import BranchPrediction.Decimal.Binary
/-!
# Decimals with fixed places

The exact value of a double is rounded to a given number of decimal places; a
half goes to the even neighbour.

## Main definitions

* `Decimal.roundDiv`: a quotient rounded to the nearest integer
* `Decimal.fixed`: the text of a double with fixed places
-/

namespace BranchPrediction.Decimal

/-- The integer nearest to `num / den`; of two equally near ones the even one. -/
def roundDiv (num den : Nat) : Nat :=
  let q := num / den
  let r := num % den
  if 2 * r < den then q
  else if den < 2 * r then q + 1
  else q + q % 2

/-- The magnitude of a double in units of `10 ^ (-places)`, rounded. -/
def Binary.units (b : Binary) (places : Nat) : Nat :=
  match b.exponent with
  | .ofNat e => b.mantissa * 10 ^ places * 2 ^ e
  | .negSucc e => roundDiv (b.mantissa * 10 ^ places) (2 ^ (e + 1))

/-- The decimal digits of `n`, padded with zeros to at least `width`. -/
def padded (width n : Nat) : String :=
  let digits := Nat.toDigits 10 n
  String.ofList (List.replicate (width - digits.length) '0' ++ digits)

/-- A double with a given positive number of decimal places. The sign bit is
shown even where the digits are all zero. -/
def fixed (places : Nat) (x : Float) : String :=
  let b := Binary.ofFloat x
  let units := b.units places
  (if b.negative then "-" else "") ++ toString (units / 10 ^ places) ++ "." ++
    padded places (units % 10 ^ places)

end BranchPrediction.Decimal
