import BranchPrediction.Power
/-!
# Perceptron weights

A weight of `n` bits is a signed number between `-2 ^ (n - 1)` and
`2 ^ (n - 1) - 1`. It is kept in a 16-bit cell; additions are carried out in a
32-bit adder that saturates, and the sum is then clamped to the range of the
weight.

## Main definitions

* `saturate`: the nearest value of a 32-bit adder
* `Weight`: a stored weight with its width
* `Weight.add`, `Weight.step`: saturating movement
-/

namespace BranchPrediction

/-- The integer of the interval from `low` to `high` nearest to `x`. -/
def clamp (low high x : Int) : Int :=
  max low (min high x)

/-- The 32-bit integer nearest to `x`. -/
def saturate (x : Int) : Int :=
  clamp (-2 ^ 31) (2 ^ 31 - 1) x

/-- A signed weight in a 16-bit cell. -/
@[ext]
structure Weight where
  cell : Int16
  bits : Nat
  deriving DecidableEq

namespace Weight

/-- The zero weight of a given width. -/
def zero (bits : Nat) : Weight :=
  ⟨0, bits⟩

/-- The weight as an integer. -/
def value (w : Weight) : Int :=
  w.cell.toInt

/-- The least value of the width. -/
def min (w : Weight) : Int :=
  -2 ^ (w.bits - 1)

/-- The greatest value of the width. -/
def max (w : Weight) : Int :=
  2 ^ (w.bits - 1) - 1

/-- Adds `delta` and stays in range. -/
def add (w : Weight) (delta : Int) : Weight :=
  { w with cell := Int16.ofInt (clamp w.min w.max (saturate (w.value + delta))) }

/-- Moves by one, up or down. -/
def step (w : Weight) (up : Bool) : Weight :=
  w.add (if up then 1 else -1)

/-- The weight of a given width nearest to `value`. -/
def ofInt (bits : Nat) (value : Int) : Weight :=
  (zero bits).add value

@[simp]
theorem value_zero (bits : Nat) : (zero bits).value = 0 :=
  rfl

@[simp]
theorem bits_add (w : Weight) (delta : Int) : (w.add delta).bits = w.bits := by
  rw [add]

@[simp]
theorem min_add (w : Weight) (delta : Int) : (w.add delta).min = w.min := by
  rw [min, bits_add, min]

@[simp]
theorem max_add (w : Weight) (delta : Int) : (w.add delta).max = w.max := by
  rw [max, bits_add, max]

@[simp]
theorem bits_step (w : Weight) (up : Bool) : (w.step up).bits = w.bits := by
  rw [step, bits_add]

end Weight

end BranchPrediction
