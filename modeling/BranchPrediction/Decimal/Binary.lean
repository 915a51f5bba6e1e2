import BranchPrediction.Power
/-!
# Doubles as exact numbers

A finite double is a signed multiple of a power of two.

## Main definitions

* `Decimal.Binary`: sign, mantissa and exponent
* `Decimal.Binary.ofFloat`: the parts of a finite double
-/

namespace BranchPrediction.Decimal

/-- The number `mantissa * 2 ^ exponent`, negated if `negative` is set. -/
structure Binary where
  negative : Bool
  /-- The mantissa, below `2 ^ 53`. -/
  mantissa : Nat
  /-- The exponent of two, at least `-1074`. -/
  exponent : Int
  deriving DecidableEq

/-- The parts of a finite double. -/
def Binary.ofFloat (x : Float) : Binary :=
  let bits := x.toBits.toNat
  let negative := bits.testBit 63
  let fraction := bits % 2 ^ 52
  let scale := bits / 2 ^ 52 % 2 ^ 11
  if scale = 0 then ⟨negative, fraction, -1074⟩
  else ⟨negative, 2 ^ 52 + fraction, Int.ofNat scale - 1075⟩

end BranchPrediction.Decimal
