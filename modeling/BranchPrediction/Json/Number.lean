import BranchPrediction.Decimal.Shortest
import BranchPrediction.Json.Basic
/-!
# JSON numbers

Natural numbers are read from plain digits only. Doubles are written with the
fewest digits that read back: positionally, with at least one decimal place,
where the point falls near the digits, and with an exponent elsewhere.

## Main definitions

* `Json.natural?`: the natural number that a value is
* `Json.ofFloat`: a double as a value
-/

namespace BranchPrediction.Json

/-- The natural number of a value that is written with digits only. -/
def natural? : Json → Option Nat
  | num lexeme =>
    let digits := lexeme.toList
    if digits ≠ [] ∧ digits.all Char.isDigit then some (Nat.ofDigitChars 10 digits 0) else none
  | _ => none

/-- How a number is written whose last digit stands for `10 ^ exponent`. The
decimal point comes after the first `point` digits. -/
def layout (digits : List Char) (exponent : Int) : List Char :=
  let point := digits.length + exponent
  if 0 ≤ exponent ∧ point ≤ 16 then
    digits ++ List.replicate exponent.toNat '0' ++ ['.', '0']
  else if 0 < point ∧ point ≤ 16 then
    digits.take point.toNat ++ '.' :: digits.drop point.toNat
  else if -5 < point ∧ point ≤ 0 then
    '0' :: '.' :: List.replicate (-point).toNat '0' ++ digits
  else
    let power := (toString (point - 1)).toList
    match digits with
    | [digit] => digit :: 'e' :: power
    | first :: rest => first :: '.' :: rest ++ 'e' :: power
    | [] => []

/-- A finite double. -/
def ofFloat (x : Float) : Json :=
  let b := Decimal.Binary.ofFloat x
  let magnitude :=
    if b.mantissa = 0 then ['0', '.', '0']
    else
      let (digits, exponent) := Decimal.shortest b
      layout (Nat.toDigits 10 digits) exponent
  num (String.ofList (if b.negative then '-' :: magnitude else magnitude))

end BranchPrediction.Json
