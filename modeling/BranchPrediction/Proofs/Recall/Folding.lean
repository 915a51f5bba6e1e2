import Mathlib.Data.Nat.ModEq
import BranchPrediction.Proofs.Recall.Outcomes
/-!
# Folded histories

A history is folded chunk by chunk: it is cut into chunks of the index width, and the
chunks are combined by exclusive or. Seen bit by bit, a recorded outcome counts towards
the bit that its age leaves as a remainder, whichever chunk it falls into and whether or
not the last chunk is full.

An outcome that enters makes every other one older by one place. So all of them count one
bit further up, where the top bit is followed by the lowest one: the folded history is
rotated. The new outcome is added at the bottom, and the outcome that was dropped is
taken out again where the rotation has put it. That is how a folded history can be kept up
to date without the history that it was folded from.

## Main definitions

* `residueXor`: the exclusive or of the bits at the positions with a given remainder

## Main results

* `testBit_foldHistory`: the bits of a folded history
* `foldHistory_shifted`: a folded history after an outcome entered
* `foldHistory_bits_and_shift`: both, for histories and widths of up to 64 bits
-/

namespace BranchPrediction

/-! ## Positions with one remainder -/

/-- The exclusive or of those among the low `len` bits of a number whose positions leave the
remainder `j` by `width`. -/
def residueXor (bits len width j : Nat) : Bool :=
  (((List.range len).filter (· % width = j)).map bits.testBit).foldl xor false

variable {bits bits' len width j : Nat}

@[simp]
theorem residueXor_zero (bits width j : Nat) : residueXor bits 0 width j = false :=
  rfl

theorem residueXor_succ (bits len width j : Nat) :
    residueXor bits (len + 1) width j =
      (residueXor bits len width j ^^ (decide (len % width = j) && bits.testBit len)) := by
  unfold residueXor
  rw [List.range_succ, List.filter_append, List.map_append, List.foldl_append]
  by_cases same : len % width = j <;> simp [same]

/-- Only the low bits count. -/
theorem residueXor_congr (same : ∀ i < len, bits.testBit i = bits'.testBit i) :
    residueXor bits len width j = residueXor bits' len width j := by
  unfold residueXor
  congr 1
  apply List.map_congr_left
  intro i member
  exact same i (List.mem_range.mp (List.mem_filter.mp member).1)

/-- Clear bits do not count. -/
theorem residueXor_of_clear (bits width j : Nat) {len longer : Nat} (le : len ≤ longer)
    (clear : ∀ i, len ≤ i → bits.testBit i = false) :
    residueXor bits longer width j = residueXor bits len width j := by
  induction longer, le using Nat.le_induction with
  | base => rfl
  | succ longer le ih => rw [residueXor_succ, ih, clear longer le, Bool.and_false, Bool.xor_false]

/-- One position of every chunk counts. -/
theorem residueXor_chunk (bits n j : Nat) {k : Nat} (part : k ≤ width) :
    residueXor bits (n * width + k) width j =
      (residueXor bits (n * width) width j ^^
        (decide (j < k) && bits.testBit (n * width + j))) := by
  -- the chunk is counted position by position, and its remainders are its own positions
  induction k with
  | zero => simp
  | succ k ih =>
    have remainder : (n * width + k) % width = k := by
      rw [Nat.mul_comm, Nat.mul_add_mod, Nat.mod_eq_of_lt part]
    rw [← Nat.add_assoc, residueXor_succ, ih (Nat.le_of_succ_le part), remainder]
    rcases Nat.lt_trichotomy j k with below | rfl | above
    · have : k ≠ j := by omega
      have : j < k + 1 := by omega
      simp [*]
    · simp
    · have : k ≠ j := by omega
      have : ¬ j < k := by omega
      have : ¬ j < k + 1 := by omega
      simp [*]

/-- A position moves on to the next remainder. -/
theorem succ_mod_eq_iff (inside : j < width) (i : Nat) :
    (i + 1) % width = j ↔ i % width = (j + width - 1) % width := by
  have back : j + width - 1 + 1 = j + width := by omega
  calc (i + 1) % width = j
      ↔ i + 1 ≡ j + width - 1 + 1 [MOD width] := by
        rw [back, Nat.ModEq, Nat.add_mod_right, Nat.mod_eq_of_lt inside]
    _ ↔ i ≡ j + width - 1 [MOD width] := ⟨fun same => same.add_right_cancel' 1, (·.add_right 1)⟩

/-- If all bits but the lowest are moved up from the place below, then they count towards
the next remainder. -/
theorem residueXor_moved (inside : j < width)
    (moved : ∀ i < len, bits'.testBit (i + 1) = bits.testBit i) :
    residueXor bits' (len + 1) width j =
      (residueXor bits len width ((j + width - 1) % width) ^^
        (decide (j = 0) && bits'.testBit 0)) := by
  induction len with
  | zero =>
    rw [residueXor_succ, residueXor_zero, residueXor_zero, Nat.zero_mod]
    simp [eq_comm]
  | succ len ih =>
    have earlier := ih fun i below => moved i (Nat.lt_succ_of_lt below)
    have same : decide ((len + 1) % width = j) = decide (len % width = (j + width - 1) % width) :=
      decide_eq_decide.mpr (succ_mod_eq_iff inside len)
    rw [residueXor_succ, earlier, residueXor_succ, same, moved len (Nat.lt_succ_self len)]
    exact Bool.xor_right_comm _ _ _

/-! ## Chunks -/

/-- The chunks can be combined from the lowest on. -/
theorem xorChunks_succ (width bits n : Nat) :
    xorChunks width bits (n + 1) =
      xorChunks width bits n ^^^ (bits >>> (n * width) &&& mask width) := by
  induction n generalizing bits with
  | zero => simp [xorChunks]
  | succ n ih =>
    have further : bits >>> width >>> (n * width) = bits >>> ((n + 1) * width) := by
      rw [← Nat.shiftRight_add, Nat.succ_mul, Nat.add_comm]
    rw [xorChunks, ih, further, ← Nat.xor_assoc]
    rfl

theorem testBit_xorChunks (narrow : width ≤ 64) (inside : j < width) (bits n : Nat) :
    (xorChunks width bits n).testBit j = residueXor bits (n * width) width j := by
  induction n with
  | zero => simp [xorChunks]
  | succ n ih =>
    rw [xorChunks_succ, Nat.testBit_xor, ih, testBit_and_mask_of_lt narrow inside,
      Nat.testBit_shiftRight, Nat.succ_mul, residueXor_chunk bits n j (Nat.le_refl width),
      decide_eq_true inside, Bool.true_and]

/-- The chunks cover the history. -/
theorem le_chunks_mul (len : Nat) (wide : 0 < width) : len ≤ (len + width - 1) / width * width := by
  have := Nat.div_add_mod (len + width - 1) width
  have := Nat.mod_lt (len + width - 1) wide
  rw [Nat.mul_comm]
  omega

/-- A bit of a folded history is the exclusive or of the outcomes whose ages leave it as a
remainder. -/
theorem testBit_foldHistory (fits : len ≤ 64) (narrow : width ≤ 64) (inside : j < width)
    (bits : Nat) : (foldHistory bits len width).testBit j = residueXor bits len width j := by
  have wide : 0 < width := Nat.zero_lt_of_lt inside
  rw [foldHistory, if_neg (Nat.ne_of_gt wide), testBit_xorChunks narrow inside,
    residueXor_of_clear _ width j (le_chunks_mul len wide) fun i old =>
      testBit_and_mask_of_le old bits]
  exact residueXor_congr fun i recent => testBit_and_mask_of_lt fits recent bits

/-- A folded history has no bits past its width. -/
theorem testBit_foldHistory_of_le (narrow : width ≤ 64) (past : width ≤ j) (bits len : Nat) :
    (foldHistory bits len width).testBit j = false := by
  have bound := foldHistory_lt bits len width
  rw [Nat.min_eq_left narrow] at bound
  exact testBit_eq_false_of_le bound past

/-! ## Outcomes that enter -/

/-- The number of `width` bits that is rotated left by one place. -/
def rotatedLeft (width x : Nat) : Nat :=
  ((BitVec.ofNat width x).rotateLeft 1).toNat

theorem rotatedLeft_lt (width x : Nat) : rotatedLeft width x < 2 ^ width :=
  BitVec.isLt _

theorem testBit_rotatedLeft (inside : j < width) (x : Nat) :
    (rotatedLeft width x).testBit j = x.testBit ((j + width - 1) % width) := by
  have source : (j + width - 1) % width < width := Nat.mod_lt _ (Nat.zero_lt_of_lt inside)
  have kept : ∀ i < width, (BitVec.ofNat width x).getLsbD i = x.testBit i := by
    intro i below
    rw [BitVec.getLsbD_ofNat, decide_eq_true below, Bool.true_and]
  rw [← kept _ source, rotatedLeft, BitVec.testBit_toNat, BitVec.getLsbD_rotateLeft]
  rcases Nat.lt_or_eq_of_le (Nat.succ_le_of_lt (Nat.zero_lt_of_lt inside)) with wide | rfl
  · -- the top bit goes to the bottom, the others move up
    rw [Nat.mod_eq_of_lt wide]
    cases j with
    | zero =>
      rw [Nat.zero_add, Nat.mod_eq_of_lt (Nat.sub_lt (by omega) (by decide))]
      simp
    | succ j =>
      have back : j + 1 + width - 1 = j + width := by omega
      rw [back, Nat.add_mod_right, Nat.mod_eq_of_lt (Nat.lt_of_succ_lt inside)]
      simp [inside]
  · -- a single bit stays where it is
    obtain rfl : j = 0 := by omega
    simp

theorem testBit_toNat_shiftLeft (b : Bool) (k j : Nat) :
    (b.toNat <<< k).testBit j = (decide (k = j) && b) := by
  have same : (k ≤ j ∧ j - k = 0) ↔ k = j := by omega
  rw [Nat.testBit_shiftLeft, Nat.testBit_bool_toNat, ← Bool.and_assoc, ← Bool.decide_and,
    decide_eq_decide.mpr same]

/-- The recorded outcomes count towards the next remainder, the new one towards the lowest,
and the dropped one towards none. -/
theorem residueXor_shifted {h : History} (nonempty : 1 ≤ h.len) (fits : h.len ≤ 64)
    (inside : j < width) (taken : Bool) :
    residueXor (h.shifted taken).bits h.len width j =
      (residueXor h.bits h.len width ((j + width - 1) % width) ^^ (decide (j = 0) && taken) ^^
        (decide (h.len % width = j) && h.bit (h.len - 1))) := by
  obtain ⟨older, length⟩ : ∃ older, h.len = older + 1 := Nat.exists_eq_add_of_le' nonempty
  have newest : (h.shifted taken).bits.testBit 0 = taken := History.bit_shifted_zero nonempty taken
  have moved : ∀ i < older, (h.shifted taken).bits.testBit (i + 1) = h.bits.testBit i :=
    fun i below => History.bit_shifted_succ fits (by omega) taken
  -- the oldest outcome counts on both sides, before it is dropped and where it has moved
  have dropped :
      decide (h.len % width = j) = decide (older % width = (j + width - 1) % width) := by
    rw [length]
    exact decide_eq_decide.mpr (succ_mod_eq_iff inside older)
  have cancel : ∀ kept added out : Bool, (kept ^^ added) = (kept ^^ out ^^ added ^^ out) := by
    decide
  rw [dropped, length, residueXor_moved inside moved, residueXor_succ, newest]
  exact cancel _ _ _

/-- A folded history after an outcome entered is rotated, the new outcome is added, and the
one that was dropped is taken out. -/
theorem foldHistory_shifted {h : History} (nonempty : 1 ≤ h.len) (fits : h.len ≤ 64)
    (wide : 1 ≤ width) (narrow : width ≤ 64) (taken : Bool) :
    foldHistory (h.shifted taken).bits h.len width =
      rotatedLeft width (foldHistory h.bits h.len width) ^^^ taken.toNat ^^^
        (h.bit (h.len - 1)).toNat <<< (h.len % width) := by
  apply Nat.eq_of_testBit_eq
  intro j
  rw [Nat.testBit_xor, Nat.testBit_xor, Nat.testBit_bool_toNat, testBit_toNat_shiftLeft]
  by_cases inside : j < width
  · have source : (j + width - 1) % width < width := Nat.mod_lt _ wide
    rw [testBit_foldHistory fits narrow inside, testBit_rotatedLeft inside,
      testBit_foldHistory fits narrow source, residueXor_shifted nonempty fits inside]
  · -- nothing reaches past the width
    have past := Nat.le_of_not_lt inside
    have added : j ≠ 0 := Nat.ne_of_gt (Nat.lt_of_lt_of_le wide past)
    have removed : h.len % width ≠ j :=
      Nat.ne_of_lt (Nat.lt_of_lt_of_le (Nat.mod_lt _ wide) past)
    have rotated : (rotatedLeft width (foldHistory h.bits h.len width)).testBit j = false :=
      testBit_eq_false_of_le (rotatedLeft_lt _ _) past
    rw [testBit_foldHistory_of_le narrow past, rotated, decide_eq_false added,
      decide_eq_false removed, Bool.false_and, Bool.false_and, Bool.xor_false, Bool.xor_false]

/-- **Folded histories.** Bit `j` of a history that is folded to `width` bits is the exclusive
or of the recorded outcomes whose ages leave the remainder `j`, and no further bit is set.
When an outcome enters the register, the folded history is rotated left by one place, the
outcome is added to its lowest bit, and the outcome that leaves the register is taken out of
the bit that the length of the register leaves as a remainder. -/
theorem foldHistory_bits_and_shift (nonempty : 1 ≤ len) (fits : len ≤ 64) (wide : 1 ≤ width)
    (narrow : width ≤ 64) :
    (∀ bits j, j < width → (foldHistory bits len width).testBit j = residueXor bits len width j) ∧
    (∀ bits j, width ≤ j → (foldHistory bits len width).testBit j = false) ∧
    ∀ (h : History) (taken : Bool), h.len = len →
      foldHistory (h.shifted taken).bits len width =
        rotatedLeft width (foldHistory h.bits len width) ^^^ taken.toNat ^^^
          (h.bit (len - 1)).toNat <<< (len % width) := by
  refine ⟨fun bits j inside => testBit_foldHistory fits narrow inside bits,
    fun bits j past => testBit_foldHistory_of_le narrow past bits len, ?_⟩
  rintro h taken rfl
  exact foldHistory_shifted nonempty fits wide narrow taken

/-- Nine outcomes are folded to four bits. The ninth has a chunk of its own, so it is added to
the lowest bit and taken out of the one above it when it is dropped. -/
theorem foldHistory_bits_and_shift_nine :
    1 ≤ 9 ∧ 9 ≤ 64 ∧ 1 ≤ 4 ∧ 4 ≤ 64 ∧ foldHistory 0b1_0110_1010 9 4 = 0b1101 ∧
      (foldHistory 0b1_0110_1010 9 4).testBit 0 = residueXor 0b1_0110_1010 9 4 0 ∧
      (History.shifted ⟨0b1_0110_1010, 9⟩ true).bits = 0b0_1101_0101 ∧
      foldHistory 0b0_1101_0101 9 4 = 0b1011 ^^^ 1 ^^^ 0b10 := by
  have nonempty : 1 ≤ 9 := by decide
  have fits : 9 ≤ 64 := by decide
  have wide : 1 ≤ 4 := by decide
  have narrow : 4 ≤ 64 := by decide
  obtain ⟨bits, -, moves⟩ := foldHistory_bits_and_shift nonempty fits wide narrow
  refine ⟨nonempty, fits, wide, narrow, by decide, bits _ 0 (by decide), by decide, ?_⟩
  exact moves ⟨0b1_0110_1010, 9⟩ true rfl

end BranchPrediction
