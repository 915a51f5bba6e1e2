import BranchPrediction.Proofs.Range.Cells
/-!
# The mistakes of one counter

A counter is some steps away from predicting an outcome. The outcome itself
takes it one step closer, the other outcome at most one step back, and it errs
on the outcome exactly while there are steps to go. So the outcomes that go one
way can only be mistaken as often as the counter has steps to go, and every
outcome that goes the other way costs at most itself and one step.

Either direction may be the one that is counted from, which bounds the mistakes
by the rarer outcome.

## Main definitions

* `Counter.stepsTo`: the steps that lie between a counter and an outcome
* `Counter.mistakes`: the outcomes that a counter predicts wrongly

## Main results

* `Counter.Within.mistakes_le`: the mistakes of a counter of a given width
-/

namespace BranchPrediction

namespace Counter

/-- The number of steps after which a counter predicts an outcome. -/
def stepsTo (c : Counter) : Bool → Nat
  | true => c.max / 2 + 1 - c.value
  | false => c.value - c.max / 2

theorem predictsTaken_eq_iff (c : Counter) (outcome : Bool) :
    c.predictsTaken = outcome ↔ c.stepsTo outcome = 0 := by
  cases outcome with
  | true =>
    rw [predictsTaken, stepsTo, decide_eq_true_iff]
    omega
  | false =>
    rw [predictsTaken, stepsTo, decide_eq_false_iff_not]
    omega

/-- An outcome takes a counter that is not stuck one step closer. -/
theorem stepsTo_train_self {c : Counter} (moves : 0 < c.max) (outcome : Bool) :
    (c.train outcome).stepsTo outcome = c.stepsTo outcome - 1 := by
  cases outcome with
  | true =>
    simp only [train, increment, stepsTo, if_true]
    split <;> omega
  | false =>
    change c.value - 1 - c.max / 2 = c.value - c.max / 2 - 1
    omega

/-- The other outcome takes it at most one step back. -/
theorem stepsTo_train_not_le (c : Counter) (outcome : Bool) :
    (c.train !outcome).stepsTo outcome ≤ c.stepsTo outcome + 1 := by
  cases outcome with
  | true =>
    change c.max / 2 + 1 - (c.value - 1) ≤ c.max / 2 + 1 - c.value + 1
    omega
  | false =>
    simp only [train, increment, stepsTo, Bool.not_false, if_true]
    split <;> omega

/-- The number of outcomes that a counter predicts wrongly while each of them
trains it. -/
def mistakes (c : Counter) : List Bool → Nat
  | [] => 0
  | outcome :: outcomes =>
    (if c.predictsTaken = outcome then 0 else 1) + (c.train outcome).mistakes outcomes

/-- The steps to an outcome pay for its mistakes, and each of the other outcomes
pays for itself and for the step it takes back. -/
theorem mistakes_le {c : Counter} (moves : 0 < c.max) (favoured : Bool) (outcomes : List Bool) :
    c.mistakes outcomes ≤ c.stepsTo favoured + 2 * outcomes.count (!favoured) := by
  -- for every counter at once, since each outcome trains it
  induction outcomes generalizing c with
  | nil => exact Nat.zero_le _
  | cons outcome outcomes ih =>
    have moves' : 0 < (c.train outcome).max := by
      rw [max_train]
      exact moves
    have later := ih moves'
    rw [mistakes]
    by_cases same : outcome = favoured
    · subst same
      rw [stepsTo_train_self moves] at later
      have other : outcome ≠ !outcome := by
        cases outcome <;> decide
      rw [List.count_cons_of_ne other]
      split
      · omega
      · next wrong =>
        -- a mistake means that there was a step to go
        have := mt (predictsTaken_eq_iff c outcome).mpr wrong
        omega
    · -- the outcome pays for itself and for one step back, mistaken or not
      obtain rfl : outcome = !favoured := Bool.eq_not_of_ne same
      have back := stepsTo_train_not_le c favoured
      rw [List.count_cons_self]
      split <;> omega

/-! ## Counters of a given width -/

/-- Half of the values of a counter lie on either side. -/
theorem Within.half_eq {bits : Nat} {c : Counter} (within : c.Within bits) (wide : 0 < bits) :
    c.max / 2 + 1 = 2 ^ (bits - 1) ∧ c.max + 1 = 2 * 2 ^ (bits - 1) := by
  have double : 2 ^ bits = 2 * 2 ^ (bits - 1) := by
    rw [← Nat.pow_succ', Nat.succ_eq_add_one, Nat.sub_add_cancel wide]
  have positive := Nat.two_pow_pos (bits - 1)
  have max_eq := within.max_eq
  omega

theorem Within.max_pos {bits : Nat} {c : Counter} (within : c.Within bits) (wide : 0 < bits) :
    0 < c.max := by
  have := (within.half_eq wide).2
  have := Nat.two_pow_pos (bits - 1)
  omega

theorem Within.stepsTo_le {bits : Nat} {c : Counter} (within : c.Within bits) (wide : 0 < bits)
    (outcome : Bool) : c.stepsTo outcome ≤ 2 ^ (bits - 1) := by
  obtain ⟨half, full⟩ := within.half_eq wide
  have := within.value_le
  cases outcome with
  | true =>
    rw [stepsTo]
    omega
  | false =>
    rw [stepsTo]
    omega

/-- A counter errs on half of its values, and twice for each of the rarer
outcomes. -/
theorem Within.mistakes_le {bits : Nat} {c : Counter} (within : c.Within bits)
    (wide : 0 < bits) (outcomes : List Bool) :
    c.mistakes outcomes ≤
      2 ^ (bits - 1) + 2 * min (outcomes.count true) (outcomes.count false) := by
  have moves := within.max_pos wide
  have fromTaken := Counter.mistakes_le moves true outcomes
  have fromNotTaken := Counter.mistakes_le moves false outcomes
  have := within.stepsTo_le wide true
  have := within.stepsTo_le wide false
  rw [Bool.not_true] at fromTaken
  rw [Bool.not_false] at fromNotTaken
  omega

end Counter

end BranchPrediction
