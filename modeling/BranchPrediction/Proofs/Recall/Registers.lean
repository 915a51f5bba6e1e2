import Mathlib.Data.List.GetD
import BranchPrediction.Proofs.Recall.Outcomes
import BranchPrediction.Proofs.Variants.NewestOutcomes
/-!
# What a register holds

A register is started with a number and then takes in one outcome after another. An
outcome that enters moves the others up by one place, so the newest outcomes stand at the
bottom and the initial number above them, cut off at the length of the register. A full
word is no exception: there the top bit is dropped by the word itself.

What is cut off makes no difference to what is kept. So a window on the newest outcomes
moves as a shorter register does that was started with the same number, and the initial
number is forgotten once enough outcomes have entered.

## Main results

* `History.bit_push_withValue`: the outcomes that entered, and what stands above them
* `History.newest_push`: the newest outcomes of a register, after any outcomes entered
* `History.Within.push_eq_push`: a register forgets what it was started with
* `History.contents_after_push`: what a register holds
-/

namespace BranchPrediction

namespace History

variable {len : Nat} {h k : History}

/-! ## Initial registers -/

theorem within_withValue (fits : len ≤ 64) (value : Nat) : (withValue len value).Within len := by
  have bound := and_mask_lt value len
  rw [Nat.min_eq_left fits] at bound
  exact ⟨rfl, bound⟩

/-- A number that is cut off twice is cut off at the shorter length. -/
theorem newest_withValue (len value n : Nat) :
    (withValue len value).newest n = withValue (min len n) value := by
  have fewer : min (min len n) 64 ≤ min len 64 := by omega
  apply History.ext
  · change (value &&& mask len) &&& mask (min len n) = value &&& mask (min len n)
    rw [and_mask, and_mask, and_mask, Nat.mod_mod_of_dvd _ (Nat.pow_dvd_pow 2 fewer)]
  · rfl

/-! ## Outcomes that enter -/

/-- The newest outcomes move on their own, however many outcomes enter. -/
theorem newest_push (h : History) (n : Nat) (outcomes : List Bool) :
    (h.push outcomes).newest n = (h.newest n).push outcomes := by
  induction outcomes generalizing h with
  | nil => rfl
  | cons o outcomes ih => rw [push_cons, push_cons, ih, newest_shifted]

/-- The outcomes that entered stand below, and the initial number above them. -/
theorem bit_push_withValue (fits : len ≤ 64) (value : Nat) (outcomes : List Bool) {i : Nat}
    (inside : i < len) :
    ((withValue len value).push outcomes).bit i =
      if newer : i < outcomes.length then outcomes[outcomes.length - 1 - i]
      else value.testBit (i - outcomes.length) := by
  rw [(within_withValue fits value).bit_push fits, decide_eq_true inside, Bool.true_and]
  split
  · next newer =>
    have entered : i < outcomes.reverse.length := by
      rw [List.length_reverse]
      exact newer
    rw [List.getD_eq_getElem _ _ entered, List.getElem_reverse]
  · next older =>
    have absent : outcomes.reverse.length ≤ i := by
      rw [List.length_reverse]
      exact Nat.le_of_not_lt older
    have kept : i - outcomes.length < len := Nat.lt_of_le_of_lt (Nat.sub_le _ _) inside
    rw [List.getD_eq_default _ _ absent]
    exact testBit_and_mask_of_lt fits kept value

/-- Enough outcomes fill a register, whatever it held before. -/
theorem Within.push_eq_push (within : h.Within len) (within' : k.Within len) (fits : len ≤ 64)
    {outcomes : List Bool} (long : len ≤ outcomes.length) :
    h.push outcomes = k.push outcomes := by
  apply (within.push fits outcomes).ext_bit (within'.push fits outcomes)
  intro i inside
  have entered : i < outcomes.reverse.length := by
    rw [List.length_reverse]
    exact Nat.lt_of_lt_of_le inside long
  rw [within.bit_push fits, within'.bit_push fits, List.getD_eq_getElem _ _ entered,
    List.getD_eq_getElem _ _ entered]

/-- **What a register holds.** Let outcomes enter a register of at most 64 outcomes that was
started with some number. Then its newest bits are these outcomes, the last one lowest, and
above them stand the low bits of the number. The register never exceeds its length. Its low
bits are the register of that length that was started with the same number and took in the
same outcomes. And once as many outcomes have entered as it holds, it does not depend on the
number any more. -/
theorem contents_after_push (fits : len ≤ 64) (value : Nat) (outcomes : List Bool) :
    (∀ i < len, ((withValue len value).push outcomes).bit i =
      if newer : i < outcomes.length then outcomes[outcomes.length - 1 - i]
      else value.testBit (i - outcomes.length)) ∧
    ((withValue len value).push outcomes).bits < 2 ^ len ∧
    (∀ k, ((withValue len value).push outcomes).lowBits k =
      ((withValue (min k len) value).push outcomes).bits) ∧
    (len ≤ outcomes.length → ∀ value',
      (withValue len value').push outcomes = (withValue len value).push outcomes) := by
  have start := within_withValue fits value
  have within := start.push fits outcomes
  refine ⟨fun i => bit_push_withValue fits value outcomes, within.bits_lt, ?_, ?_⟩
  · intro k
    rw [← within.bits_newest k, newest_push, newest_withValue, Nat.min_comm]
  · intro long value'
    exact (within_withValue fits value').push_eq_push start fits long

/-- A full word of ones takes in two outcomes and drops its two highest bits. -/
theorem contents_after_push_word :
    64 ≤ 64 ∧ ((withValue 64 (2 ^ 64 - 1)).push [true, false]).bits = 2 ^ 64 - 2 ∧
      ((withValue 64 (2 ^ 64 - 1)).push [true, false]).bit 1 = true ∧
      ((withValue 64 (2 ^ 64 - 1)).push [true, false]).bit 63 = (2 ^ 64 - 1).testBit 61 ∧
      ((withValue 64 (2 ^ 64 - 1)).push [true, false]).bits < 2 ^ 64 ∧
      ((withValue 64 (2 ^ 64 - 1)).push [true, false]).lowBits 3 =
        ((withValue 3 (2 ^ 64 - 1)).push [true, false]).bits := by
  have fits : 64 ≤ 64 := Nat.le_refl 64
  obtain ⟨recorded, bound, low, -⟩ := contents_after_push fits (2 ^ 64 - 1) [true, false]
  exact ⟨fits, by decide, recorded 1 (by decide), recorded 63 (by decide), bound, low 3⟩

end History

end BranchPrediction
