import BranchPrediction.Proofs.Range.Cells
/-!
# Histories that repeat one outcome

An outcome that enters a register moves the recorded ones up by one place. So
the newest outcomes are equal for as long as equal outcomes have entered, and
once they fill the register it records nothing else. From then on an outcome of
the same kind drops one of its kind and leaves the register as it was.

## Main definitions

* `History.Repeats`: the newest outcomes are all the same

## Main results

* `History.bit_shifted`: what a register records after an outcome entered
* `History.Repeats.push`: repeated outcomes fill a register from below
* `History.Repeats.shifted_eq`: a register of one outcome absorbs that outcome
-/

namespace BranchPrediction

/-- A number of `n` bits has no bits past them. -/
theorem testBit_eq_false_of_le {x n i : Nat} (small : x < 2 ^ n) (past : n ≤ i) :
    x.testBit i = false :=
  Nat.testBit_lt_two_pow (Nat.lt_of_lt_of_le small (Nat.pow_le_pow_right (by decide) past))

/-- A mask keeps the low bits. -/
theorem testBit_and_mask (x n i : Nat) :
    (x &&& mask n).testBit i = (decide (i < min n 64) && x.testBit i) := by
  rw [and_mask, Nat.testBit_mod_two_pow]

theorem testBit_and_mask_of_lt {n i : Nat} (fits : n ≤ 64) (inside : i < n) (x : Nat) :
    (x &&& mask n).testBit i = x.testBit i := by
  have kept : i < min n 64 := Nat.lt_min.mpr ⟨inside, Nat.lt_of_lt_of_le inside fits⟩
  rw [testBit_and_mask, decide_eq_true kept, Bool.true_and]

theorem testBit_and_mask_of_le {n i : Nat} (past : n ≤ i) (x : Nat) :
    (x &&& mask n).testBit i = false := by
  have cut : ¬ i < min n 64 := fun kept => Nat.not_lt.mpr past (Nat.lt_min.mp kept).1
  rw [testBit_and_mask, decide_eq_false cut, Bool.false_and]

namespace History

/-! ## Recorded outcomes -/

/-- The new outcome is the newest, and the others are one branch older. -/
theorem bit_shifted (h : History) (taken : Bool) (i : Nat) :
    (h.shifted taken).bit i =
      (decide (i < min h.len 64) && if i = 0 then taken else h.bit (i - 1)) := by
  unfold bit shifted
  rw [testBit_and_mask, Nat.testBit_or, Nat.testBit_shiftLeft, Nat.testBit_bool_toNat]
  cases i with
  | zero => simp
  | succ i => simp

theorem bit_shifted_zero {h : History} (nonempty : 0 < h.len) (taken : Bool) :
    (h.shifted taken).bit 0 = taken := by
  have inside : 0 < min h.len 64 := by omega
  rw [bit_shifted, decide_eq_true inside, if_pos rfl, Bool.true_and]

/-- A recorded outcome is one branch older, unless it was the oldest. -/
theorem bit_shifted_succ {h : History} (fits : h.len ≤ 64) {i : Nat} (inside : i + 1 < h.len)
    (taken : Bool) : (h.shifted taken).bit (i + 1) = h.bit i := by
  have recorded : i + 1 < min h.len 64 := by omega
  rw [bit_shifted, decide_eq_true recorded, if_neg (Nat.succ_ne_zero i), Bool.true_and,
    Nat.add_sub_cancel]

/-- A register records nothing past its end. -/
theorem Within.bit_eq_false {len : Nat} {h : History} (within : h.Within len) {i : Nat}
    (past : len ≤ i) : h.bit i = false :=
  testBit_eq_false_of_le within.bits_lt past

/-- Registers of one length that record the same outcomes are the same. -/
theorem Within.ext_bit {len : Nat} {h k : History} (within : h.Within len)
    (within' : k.Within len) (same : ∀ i, i < len → h.bit i = k.bit i) : h = k := by
  refine History.ext (Nat.eq_of_testBit_eq fun i => ?_) (within.len_eq.trans within'.len_eq.symm)
  by_cases inside : i < len
  · exact same i inside
  · -- past the end both are clear
    have past := Nat.le_of_not_lt inside
    exact (within.bit_eq_false past).trans (within'.bit_eq_false past).symm

/-! ## Repetition -/

/-- The `n` newest outcomes are all the same, as far as the register records
them. -/
def Repeats (h : History) (outcome : Bool) (n : Nat) : Prop :=
  ∀ i, i < n → i < h.len → h.bit i = outcome

variable {h : History} {outcome : Bool} {n : Nat}

theorem repeats_zero (h : History) (outcome : Bool) : h.Repeats outcome 0 :=
  fun _ none => absurd none (Nat.not_lt_zero _)

theorem Repeats.mono {m : Nat} (repeats : h.Repeats outcome n) (fewer : m ≤ n) :
    h.Repeats outcome m :=
  fun i recent inside => repeats i (Nat.lt_of_lt_of_le recent fewer) inside

theorem Repeats.shifted (repeats : h.Repeats outcome n) (fits : h.len ≤ 64) :
    (h.shifted outcome).Repeats outcome (n + 1) := by
  intro i recent inside
  rw [len_shifted] at inside
  have recorded : i < min h.len 64 := by omega
  rw [bit_shifted, decide_eq_true recorded, Bool.true_and]
  cases i with
  | zero => rfl
  | succ i => exact repeats i (Nat.lt_of_succ_lt_succ recent) (Nat.lt_of_succ_lt inside)

/-- Equal outcomes that enter add to the repetition. -/
theorem Repeats.push {outcomes : List Bool} (steady : ∀ o ∈ outcomes, o = outcome)
    (repeats : h.Repeats outcome n) (fits : h.len ≤ 64) :
    (h.push outcomes).Repeats outcome (n + outcomes.length) := by
  induction outcomes generalizing h n with
  | nil => exact repeats
  | cons o outcomes ih =>
    obtain rfl : o = outcome := steady o List.mem_cons_self
    have later := ih (fun o' member => steady o' (List.mem_cons_of_mem o member))
      (repeats.shifted fits) fits
    rw [push_cons, List.length_cons, Nat.add_comm outcomes.length, ← Nat.add_assoc]
    exact later

/-- Enough equal outcomes fill a register, whatever it recorded before. -/
theorem Within.repeats_push {len : Nat} (within : h.Within len) (fits : len ≤ 64)
    {outcomes : List Bool} (steady : ∀ o ∈ outcomes, o = outcome)
    (long : len ≤ outcomes.length) : (h.push outcomes).Repeats outcome len := by
  rw [← within.len_eq] at fits
  have filled := (h.repeats_zero outcome).push steady fits
  rw [Nat.zero_add] at filled
  exact filled.mono long

theorem Within.repeats_push_replicate {len : Nat} (within : h.Within len) (fits : len ≤ 64)
    (outcome : Bool) : (h.push (List.replicate len outcome)).Repeats outcome len :=
  within.repeats_push fits (fun _ member => List.eq_of_mem_replicate member)
    (Nat.le_of_eq List.length_replicate.symm)

/-- A register that is filled with one outcome absorbs that outcome. -/
theorem Repeats.shifted_eq {len : Nat} (within : h.Within len) (fits : len ≤ 64)
    (filled : h.Repeats outcome len) : h.shifted outcome = h := by
  refine (within.shifted fits outcome).ext_bit within fun i inside => ?_
  have same : ∀ j, j < len → h.bit j = outcome := fun j recorded =>
    filled j recorded (Nat.lt_of_lt_of_eq recorded within.len_eq.symm)
  have recorded : i < min h.len 64 := by
    rw [within.len_eq]
    omega
  -- what enters and what moves up are the same outcome
  rw [bit_shifted, decide_eq_true recorded, Bool.true_and, same i inside]
  cases i with
  | zero => rfl
  | succ i => exact same i (Nat.lt_of_succ_lt inside)

end History

end BranchPrediction
