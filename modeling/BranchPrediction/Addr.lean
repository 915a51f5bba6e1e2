import BranchPrediction.Power
/-!
# Instruction addresses

Addresses are 32 bits wide and instructions are four bytes long, so the low two
bits of an address never take part in indexing or tag comparison. What remains,
the word address, splits into an index field at the bottom and a tag above it.

## Main definitions

* `Addr`: a 32-bit instruction address
* `Addr.word`, `Addr.wordIndex`, `Addr.tag`: the word address and its two fields
* `Addr.next`: the address of the following instruction
* `Addr.hex`: hexadecimal text
-/

namespace BranchPrediction

/-! ## Addresses -/

/-- A 32-bit instruction address. -/
@[ext]
structure Addr where
  val : Nat
  val_lt : val < 2 ^ 32
  deriving DecidableEq

namespace Addr

/-- The address with the low 32 bits of `n`. -/
def ofNat (n : Nat) : Addr :=
  ⟨n % 2 ^ 32, Nat.mod_lt _ (Nat.two_pow_pos 32)⟩

instance : Inhabited Addr :=
  ⟨ofNat 0⟩

@[simp]
theorem val_ofNat (n : Nat) : (ofNat n).val = n % 2 ^ 32 :=
  rfl

@[simp]
theorem ofNat_val (a : Addr) : ofNat a.val = a :=
  Addr.ext (Nat.mod_eq_of_lt a.val_lt)

/-- The address without its two alignment bits. -/
def word (a : Addr) : Nat :=
  a.val >>> 2

/-- The low `n` bits of the word address, the index into a direct-mapped table
of `2 ^ n` cells. -/
def wordIndex (a : Addr) (n : Nat) : Nat :=
  a.word &&& mask n

/-- The bits of the word address above an index field of `n` bits. -/
def tag (a : Addr) (n : Nat) : Nat :=
  if 32 ≤ n + 2 then 0 else a.val >>> (n + 2)

/-- The address of the following instruction, wrapping at the end of memory. -/
def next (a : Addr) : Addr :=
  ofNat (a.val + 4)

theorem wordIndex_lt (a : Addr) (n : Nat) : a.wordIndex n < 2 ^ min n 64 :=
  and_mask_lt a.word n

theorem word_lt (a : Addr) : a.word < 2 ^ 30 := by
  have := a.val_lt
  rw [word, Nat.shiftRight_eq_div_pow]
  omega

/-- Index and tag together are the word address. -/
theorem word_eq_tag_wordIndex (a : Addr) {n : Nat} (h : n ≤ 30) :
    a.word = a.tag n * 2 ^ n + a.wordIndex n := by
  have small : min n 64 = n := by omega
  have tag_eq : a.tag n = a.word / 2 ^ n := by
    unfold tag word
    split
    · rename_i full
      have : n = 30 := by omega
      subst this
      have := a.val_lt
      rw [Nat.shiftRight_eq_div_pow, Nat.div_div_eq_div_mul]
      exact (Nat.div_eq_of_lt (by omega)).symm
    · rw [Nat.shiftRight_eq_div_pow, Nat.shiftRight_eq_div_pow, Nat.div_div_eq_div_mul,
        ← Nat.pow_add, Nat.add_comm]
  rw [wordIndex, and_mask, small, tag_eq, Nat.mul_comm]
  exact (Nat.div_add_mod a.word (2 ^ n)).symm

/-! ## Text -/

/-- Lower-case hexadecimal digits, padded with zeros to at least `width`. -/
def hex (a : Addr) (width : Nat) : String :=
  let digits := Nat.toDigits 16 a.val
  String.ofList (List.replicate (width - digits.length) '0' ++ digits)

/-- Addresses are shown as eight hexadecimal digits after `0x`. -/
def display (a : Addr) : String :=
  "0x" ++ a.hex 8

end Addr

end BranchPrediction
