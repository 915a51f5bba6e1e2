import BranchPrediction.Proofs.Range.Cells
/-!
# Weights as accumulators

A weight takes in one number after another. Each of them goes through an adder of 32 bits,
which saturates; the sum is clamped to the range of the weight, and what is left of it is
stored in a cell of 16 bits. Only the clamp is meant to be felt.

The adder is not felt because the range of a weight lies within its own: a sum that
saturates has left the range on the same side, and is clamped to the same end as the exact
sum. The cell is not felt because the clamp comes first. A weight of 16 bits leaves no room
in the cell, but it needs none.

An addition of which both is true is exact up to the clamp. If every addition of a run is,
then the weight has become the sum of what it took in, clamped after each addition.

## Main definitions

* `Weight.adds`: a weight after some additions
* `Weight.AddsExactly`: an addition in which neither the adder nor the cell is felt
* `Weight.AddsAllExactly`: a run of such additions

## Main results

* `Weight.addsExactly`, `Weight.addsAllExactly`: every addition to a weight that fits its cell
* `Weight.AddsAllExactly.value_adds`: the sum of a run
* `Weight.value_adds_eq_clampedSum`: what a weight has become
-/

namespace BranchPrediction

namespace Weight

variable {bits : Nat} {w : Weight} {delta : Int} {deltas : List Int}

/-! ## One addition -/

/-- Neither the adder nor the cell changes what an addition amounts to. -/
structure AddsExactly (w : Weight) (delta : Int) : Prop where
  /-- The clamp makes the same of the saturated sum as of the exact one. -/
  saturated : clamp w.min w.max (saturate (w.value + delta)) = clamp w.min w.max (w.value + delta)
  /-- The cell gives back what is stored in it. -/
  stored : (w.add delta).value = clamp w.min w.max (saturate (w.value + delta))

/-- Then only the clamp is left. -/
theorem AddsExactly.value_add (addition : w.AddsExactly delta) :
    (w.add delta).value = clamp w.min w.max (w.value + delta) :=
  addition.stored.trans addition.saturated

theorem addsExactly (fits : w.bits ≤ maxWeightBits) (delta : Int) : w.AddsExactly delta where
  saturated := clamp_range_saturate fits _
  stored := Weight.value_add fits delta

/-- An initial weight is zero with its value added. -/
theorem value_ofInt (fits : bits ≤ maxWeightBits) (x : Int) :
    (ofInt bits x).value = clamp (-2 ^ (bits - 1)) (2 ^ (bits - 1) - 1) x := by
  have addition : (zero bits).AddsExactly x := addsExactly fits x
  rw [ofInt, addition.value_add, value_zero, Int.zero_add, Weight.min, Weight.max, zero]

/-! ## Runs of additions -/

/-- A weight after some additions, the first one first. -/
def adds (w : Weight) (deltas : List Int) : Weight :=
  deltas.foldl add w

@[simp]
theorem adds_cons (w : Weight) (delta : Int) (deltas : List Int) :
    w.adds (delta :: deltas) = (w.add delta).adds deltas := by
  rw [adds, List.foldl_cons, adds]

/-- Neither the adder nor the cell is felt in any addition of a run. -/
inductive AddsAllExactly : Weight → List Int → Prop
  | nil (w : Weight) : AddsAllExactly w []
  | cons {w : Weight} {delta : Int} {deltas : List Int} :
      w.AddsExactly delta → AddsAllExactly (w.add delta) deltas → AddsAllExactly w (delta :: deltas)

theorem addsAllExactly (fits : w.bits ≤ maxWeightBits) (deltas : List Int) :
    w.AddsAllExactly deltas := by
  induction deltas generalizing w with
  | nil => exact .nil w
  | cons delta deltas ih =>
    have fits' : (w.add delta).bits ≤ maxWeightBits := by rwa [bits_add]
    exact .cons (addsExactly fits delta) (ih fits')

/-- A run of exact additions adds up, with a clamp after each of them. -/
theorem AddsAllExactly.value_adds (additions : w.AddsAllExactly deltas) :
    (w.adds deltas).value = clampedSum w.min w.max w.value deltas := by
  induction additions with
  | nil w => rfl
  | cons addition _ ih =>
    -- the range is that of the width, and does not move
    rw [adds_cons, ih, min_add, max_add, addition.value_add, clampedSum_cons]

/-- **A weight is the clamped sum of what it took in.** Let a weight of at most 16 bits be
started with some number, and let other numbers be added to it in turn. Its value is what
exact addition gives if the initial number, and then the sum after each addition, is
clamped to the range of the weight. Neither the saturation of the adder nor the narrowing to
the cell has changed the result, be it for the initial number or for a later addition. -/
theorem value_adds_eq_clampedSum (fits : bits ≤ maxWeightBits) (init : Int)
    (deltas : List Int) :
    ((ofInt bits init).adds deltas).value =
      clampedSum (-2 ^ (bits - 1)) (2 ^ (bits - 1) - 1)
        (clamp (-2 ^ (bits - 1)) (2 ^ (bits - 1) - 1) init) deltas ∧
    (zero bits).AddsExactly init ∧ (ofInt bits init).AddsAllExactly deltas := by
  have additions : (ofInt bits init).AddsAllExactly deltas := addsAllExactly fits deltas
  have sum := additions.value_adds
  rw [value_ofInt fits] at sum
  exact ⟨sum, addsExactly fits init, additions⟩

/-- The ends of the adder, taken in from either side. -/
def extremes : List Int :=
  [-2 ^ 31, 2 ^ 31 - 1, 2 ^ 31 - 1, -1]

/-- A weight that fills its cell stands at its lower end when the adder saturates for the
first time, and at its upper end when it saturates again. -/
theorem value_adds_eq_clampedSum_extremes :
    16 ≤ maxWeightBits ∧
      ((ofInt 16 (-2 ^ 31)).adds extremes).value =
        clampedSum (-2 ^ 15) (2 ^ 15 - 1) (clamp (-2 ^ 15) (2 ^ 15 - 1) (-2 ^ 31)) extremes ∧
      clampedSum (-2 ^ 15) (2 ^ 15 - 1) (clamp (-2 ^ 15) (2 ^ 15 - 1) (-2 ^ 31)) extremes =
        2 ^ 15 - 2 ∧
      (ofInt 16 (-2 ^ 31)).value + -2 ^ 31 = -2 ^ 31 - 2 ^ 15 ∧
      saturate (-2 ^ 31 - 2 ^ 15) = -2 ^ 31 ∧
      (zero 16).AddsExactly (-2 ^ 31) ∧ (ofInt 16 (-2 ^ 31)).AddsAllExactly extremes := by
  have fits : 16 ≤ maxWeightBits := Nat.le_refl 16
  obtain ⟨sum, first, additions⟩ := value_adds_eq_clampedSum fits (-2 ^ 31) extremes
  exact ⟨fits, sum, by decide, by decide, by decide, first, additions⟩

end Weight

end BranchPrediction
