import BranchPrediction.Proofs.Workload.Growth
/-!
# The random workload gives itself away

The random kernel steps a register with feedback in every round of its loop, and shows two
bits of it, the lowest one and the one three places further up. The register moves down by
one place in a step, so a bit that stands above the lowest one is shown there later, after
as many steps as it has places to go. One shown bit is therefore the other one three rounds
later, and sixteen shown bits in a row are all that the register holds.

What enters at the top is the exclusive or of four bits, each of which is shown in its turn.
So the shown bits obey a linear recurrence. A register with a bit set never becomes blank,
since the bit that leaves it takes part in the feedback. And one invocation of the kernel
hands the register to the next, so nothing of this stops where an invocation does.

## Main definitions

* `Lfsr.after`: the register after some steps
* `Lfsr.shown`: the lowest bits of a register, step by step
* `Workload.Rounds`: the records of the random kernel's loop

## Main results

* `Lfsr.bit_after`: a bit of the register is shown later
* `Lfsr.shown_add_sixteen`: the recurrence of the shown bits
* `Workload.rounds_generateFrom`: the records of a random workload
* `Workload.random_recurrence`: the outcomes of a random workload
-/

namespace BranchPrediction

/-! ## The register -/

namespace Lfsr

/-- The register after `n` steps. -/
def after (s : Lfsr) : Nat → Lfsr
  | 0 => s
  | n + 1 => (s.after n).next

theorem after_succ (s : Lfsr) (n : Nat) : s.after (n + 1) = (s.after n).next :=
  rfl

theorem after_add (s : Lfsr) (m n : Nat) : s.after (m + n) = (s.after m).after n := by
  induction n with
  | zero => rfl
  | succ n ih => rw [← Nat.add_assoc, after_succ, after_succ, ih]

/-- The feedback is the top bit of what is put into the register. -/
theorem getLsbD_feedback (fedBack : Bool) (i : Nat) :
    (if fedBack then 0x8000#16 else 0#16).getLsbD i = (decide (i = 15) && fedBack) := by
  have top : 0x8000#16 = BitVec.twoPow 16 15 := rfl
  cases fedBack with
  | false => simp
  | true =>
    rw [if_pos rfl, top, BitVec.getLsbD_twoPow]
    grind

/-- A step moves the register down, and the feedback enters at the top. -/
theorem bit_next (s : Lfsr) (i : Nat) :
    s.next.bit i = if i = 15 then s.feedback else s.bit (i + 1) := by
  unfold next bit
  rw [BitVec.getLsbD_or, BitVec.getLsbD_ushiftRight, getLsbD_feedback, Nat.add_comm]
  split
  · next last =>
    subst last
    simp
  · next lower => rw [decide_eq_false lower, Bool.false_and, Bool.or_false]

/-- A bit of the register is the lowest one after as many steps as it has places to go. -/
theorem bit_after (s : Lfsr) {i : Nat} (inside : i < 16) (k : Nat) :
    (s.after k).bit i = (s.after (k + i)).bit 0 := by
  induction i generalizing k with
  | zero => rfl
  | succ i ih =>
    have lower : i ≠ 15 := by omega
    have moved : (s.after (k + 1)).bit i = (s.after k).bit (i + 1) := by
      rw [after_succ, bit_next, if_neg lower]
    rw [← moved, ih (Nat.lt_of_succ_lt inside), Nat.add_assoc, Nat.add_comm 1]

/-- Some bit of the register is set. -/
def IsSet (s : Lfsr) : Prop :=
  ∃ i < 16, s.bit i = true

theorem isSet_seed : seed.IsSet :=
  ⟨0, by decide, by decide⟩

/-- A register never becomes blank, since the bit that leaves it is fed back. -/
theorem IsSet.next {s : Lfsr} (set : s.IsSet) : s.next.IsSet := by
  apply Classical.byContradiction
  intro blank
  have clear : ∀ i < 16, s.next.bit i = false := fun i inside =>
    eq_false_of_ne_true fun on => blank ⟨i, inside, on⟩
  -- a blank successor leaves nothing but the lowest bit to be set
  have upper : ∀ i < 15, s.bit (i + 1) = false := by
    intro i inside
    rw [← clear i (Nat.lt_succ_of_lt inside), bit_next, if_neg (Nat.ne_of_lt inside)]
  -- and that one would be all that enters at the top
  have lowest : s.bit 0 = false := by
    have fedBack : s.feedback = false := by
      rw [← clear 15 (by decide), bit_next, if_pos rfl]
    have entered : (s.bit 0 ^^ s.bit 2 ^^ s.bit 3 ^^ s.bit 5) = false := fedBack
    rwa [upper 1 (by decide), upper 2 (by decide), upper 4 (by decide), Bool.xor_false,
      Bool.xor_false, Bool.xor_false] at entered
  obtain ⟨i, inside, on⟩ := set
  cases i with
  | zero => exact absurd on (ne_true_of_eq_false lowest)
  | succ i => exact absurd on (ne_true_of_eq_false (upper i (Nat.lt_of_succ_lt_succ inside)))

theorem IsSet.after {s : Lfsr} (set : s.IsSet) (k : Nat) : (s.after k).IsSet := by
  induction k with
  | zero => exact set
  | succ k ih => exact ih.next

/-! ## Shown bits -/

/-- The lowest bit after the step of round `k`. -/
def shown (s : Lfsr) (k : Nat) : Bool :=
  (s.after (k + 1)).bit 0

/-- The bits of the register are shown one after another. -/
theorem bit_after_succ (s : Lfsr) {i : Nat} (inside : i < 16) (k : Nat) :
    (s.after (k + 1)).bit i = s.shown (k + i) := by
  rw [bit_after s inside, shown, Nat.add_right_comm]

/-- The shown bits obey a linear recurrence. -/
theorem shown_add_sixteen (s : Lfsr) (k : Nat) :
    s.shown (k + 16) = (s.shown k ^^ s.shown (k + 2) ^^ s.shown (k + 3) ^^ s.shown (k + 5)) := by
  have taps : ∀ i < 16, (s.after (k + 1)).bit i = s.shown (k + i) :=
    fun i inside => s.bit_after_succ inside k
  calc s.shown (k + 16)
      = s.shown (k + 1 + 15) := by rw [Nat.add_assoc]
    _ = (s.after (k + 1 + 1)).bit 15 := (s.bit_after_succ (by decide) (k + 1)).symm
    _ = (s.after (k + 1)).feedback := by rw [after_succ, bit_next, if_pos rfl]
    _ = ((s.after (k + 1)).bit 0 ^^ (s.after (k + 1)).bit 2 ^^ (s.after (k + 1)).bit 3 ^^
          (s.after (k + 1)).bit 5) := rfl
    _ = _ := by
      rw [taps 0 (by decide), taps 2 (by decide), taps 3 (by decide), taps 5 (by decide),
        Nat.add_zero]

/-- Among sixteen shown bits one is set. -/
theorem exists_shown {s : Lfsr} (set : s.IsSet) (k : Nat) : ∃ i < 16, s.shown (k + i) = true := by
  obtain ⟨i, inside, on⟩ := set.after (k + 1)
  exact ⟨i, inside, (s.bit_after_succ inside k).symm.trans on⟩

end Lfsr

/-! ## Records -/

namespace Workload

/-- The records of `n` rounds of the random kernel's loop that start with a given register:
three to a round, of which the first shows bit 0 and the second bit 3 after a step. -/
structure Rounds (base : Nat) (s : Lfsr) (n : Nat) (records : List Branch) : Prop where
  length_eq : records.length = 3 * n
  first : ∀ k < n, records[3 * k]? = some (branchAt base 0x10 0x20 ((s.after (k + 1)).bit 0))
  second : ∀ k < n, records[3 * k + 1]? = some (branchAt base 0x24 0x30 ((s.after (k + 1)).bit 3))

variable {base : Nat} {s : Lfsr}

theorem rounds_nil : Rounds base s 0 [] where
  length_eq := rfl
  first _ none := absurd none (Nat.not_lt_zero _)
  second _ none := absurd none (Nat.not_lt_zero _)

theorem rounds_one (base : Nat) (s : Lfsr) (backEdge : Branch) :
    Rounds base s 1 [branchAt base 0x10 0x20 (s.next.bit 0),
      branchAt base 0x24 0x30 (s.next.bit 3), backEdge] where
  length_eq := rfl
  first k single := by
    obtain rfl : k = 0 := by omega
    rfl
  second k single := by
    obtain rfl : k = 0 := by omega
    rfl

/-- Further rounds go on with the register that the earlier ones left. -/
theorem Rounds.append {m n : Nat} {earlier later : List Branch} (here : Rounds base s m earlier)
    (there : Rounds base (s.after m) n later) : Rounds base s (m + n) (earlier ++ later) := by
  have length := here.length_eq
  constructor
  case length_eq =>
    rw [List.length_append, length, there.length_eq, Nat.mul_add]
  case first =>
    intro k below
    rcases Nat.lt_or_ge k m with early | late
    · rw [List.getElem?_append_left (by omega), here.first k early]
    · obtain ⟨k, rfl⟩ := Nat.exists_eq_add_of_le late
      have place : 3 * (m + k) - earlier.length = 3 * k := by omega
      rw [List.getElem?_append_right (by omega), place, there.first k (by omega), ← Lfsr.after_add,
        Nat.add_assoc]
  case second =>
    intro k below
    rcases Nat.lt_or_ge k m with early | late
    · rw [List.getElem?_append_left (by omega), here.second k early]
    · obtain ⟨k, rfl⟩ := Nat.exists_eq_add_of_le late
      have place : 3 * (m + k) + 1 - earlier.length = 3 * k + 1 := by omega
      rw [List.getElem?_append_right (by omega), place, there.second k (by omega),
        ← Lfsr.after_add, Nat.add_assoc]

theorem rounds_randomRounds (base n : Nat) (s : Lfsr) :
    Rounds base s n (randomRounds base n s).1 ∧ (randomRounds base n s).2 = s.after n := by
  induction n generalizing s with
  | zero => exact ⟨rounds_nil, rfl⟩
  | succ n ih =>
    obtain ⟨rest, final⟩ := ih s.next
    have round := (rounds_one base s (branchAt base 0x3C 0x04 (0 < n))).append rest
    rw [Nat.add_comm 1] at round
    exact ⟨round, final.trans (by rw [Nat.add_comm, Lfsr.after_add]; rfl)⟩

/-- The rounds of one invocation follow those of the one before. -/
theorem rounds_generateFrom (n : Nat) (s : Lfsr) :
    Rounds random.base s (64 * n) (random.generateFrom n s) := by
  induction n generalizing s with
  | zero => exact rounds_nil
  | succ n ih =>
    have invoked : random.invoke s = randomRounds random.base 64 s := rfl
    obtain ⟨rounds, left⟩ := rounds_randomRounds random.base 64 s
    rw [generateFrom_succ, invoked, left, Nat.mul_succ, Nat.add_comm]
    exact rounds.append (ih (s.after 64))

/-- **The random workload gives itself away.** It is a sequence of rounds of three records.
Let `a` and `b` be the outcomes of the first two records of the rounds, in all invocations.
Then `b` is what `a` will be three rounds later, `a` obeys a linear recurrence of degree
sixteen, and among any sixteen outcomes of `a` in a row there is a taken one. -/
theorem random_recurrence (n : Nat) :
    (random.generate n).length = 3 * (64 * n) ∧ ∃ a b : Nat → Bool,
      (∀ k < 64 * n,
        (random.generate n)[3 * k]? = some (branchAt random.base 0x10 0x20 (a k)) ∧
          (random.generate n)[3 * k + 1]? = some (branchAt random.base 0x24 0x30 (b k))) ∧
      (∀ k, k + 3 < 64 * n → b k = a (k + 3)) ∧
      (∀ k, k + 16 < 64 * n → a (k + 16) = (a k ^^ a (k + 2) ^^ a (k + 3) ^^ a (k + 5))) ∧
      ∀ k, k + 16 ≤ 64 * n → ∃ i < 16, a (k + i) = true := by
  have rounds : Rounds random.base Lfsr.seed (64 * n) (random.generate n) :=
    rounds_generateFrom n Lfsr.seed
  refine ⟨rounds.length_eq, Lfsr.seed.shown, fun k => Lfsr.seed.shown (k + 3), ?_, ?_, ?_, ?_⟩
  · intro k below
    refine ⟨rounds.first k below, ?_⟩
    rw [rounds.second k below, Lfsr.bit_after_succ _ (by decide)]
  · intro k _
    rfl
  · intro k _
    exact Lfsr.seed.shown_add_sixteen k
  · intro k _
    exact Lfsr.exists_shown Lfsr.isSet_seed k

end Workload

end BranchPrediction
