import BranchPrediction.Power
/-!
# Saturating direction counters

A counter of `n` bits moves up on taken branches and down on not-taken ones and
stops at either end. Its upper half predicts taken.

## Main definitions

* `Counter`: a value with its upper bound
* `Counter.ofBits`, `Counter.weaklyTaken`: initial counters of a given width
* `Counter.train`: one step towards an outcome
* `Counter.predictsTaken`: the direction a counter stands for
-/

namespace BranchPrediction

/-- A direction counter between `0` and `max`. -/
@[ext]
structure Counter where
  value : Nat
  /-- The value at which the counter saturates. -/
  max : Nat
  deriving DecidableEq

namespace Counter

/-- A counter of `bits` bits that starts at `value`, or at its bound if that is
less. -/
def ofBits (bits value : Nat) : Counter :=
  let max := 2 ^ bits - 1
  ⟨min value max, max⟩

/-- The least counter of `bits` bits that predicts taken. -/
def weaklyTaken (bits : Nat) : Counter :=
  ofBits bits (2 ^ (bits - 1))

/-- One step up, up to the bound. -/
def increment (c : Counter) : Counter :=
  { c with value := if c.value < c.max then c.value + 1 else c.max }

/-- One step down, down to zero. -/
def decrement (c : Counter) : Counter :=
  { c with value := c.value - 1 }

/-- One step towards the outcome of a branch. -/
def train (c : Counter) (taken : Bool) : Counter :=
  if taken then c.increment else c.decrement

/-- Whether the counter is in the upper half of its range. -/
def predictsTaken (c : Counter) : Bool :=
  c.max / 2 < c.value

@[simp]
theorem max_ofBits (bits value : Nat) : (ofBits bits value).max = 2 ^ bits - 1 :=
  rfl

theorem value_ofBits_le (bits value : Nat) :
    (ofBits bits value).value ≤ (ofBits bits value).max :=
  Nat.min_le_right _ _

@[simp]
theorem max_train (c : Counter) (taken : Bool) : (c.train taken).max = c.max := by
  cases taken <;> rfl

/-- Training stays within the range of the counter. -/
theorem value_train_le {c : Counter} (h : c.value ≤ c.max) (taken : Bool) :
    (c.train taken).value ≤ (c.train taken).max := by
  cases taken
  · exact Nat.le_trans (Nat.sub_le _ _) h
  · simp only [train, increment, if_true]
    split <;> omega

end Counter

end BranchPrediction
