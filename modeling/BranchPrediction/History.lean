import BranchPrediction.Addr
/-!
# Branch history

A shift register of branch outcomes. Bit `0` is the newest outcome, and each
outcome that enters pushes the oldest one out at the top.

## Main definitions

* `History`: the register contents with their length
* `History.ofLength`, `History.withValue`: initial registers
* `History.shifted`, `History.push`: one outcome or several entering
* `History.bit`, `History.lowBits`: the recorded outcomes
-/

namespace BranchPrediction

/-- A register of `len` branch outcomes. -/
@[ext]
structure History where
  /-- The outcomes as a number, the newest in bit `0`. -/
  bits : Nat
  /-- The number of outcomes that are kept. -/
  len : Nat
  deriving DecidableEq

namespace History

/-- The register of `len` not-taken outcomes. -/
def ofLength (len : Nat) : History :=
  ⟨0, len⟩

/-- The register of `len` outcomes with the low bits of `value`. -/
def withValue (len value : Nat) : History :=
  ⟨value &&& mask len, len⟩

/-- A register without outcomes is empty. -/
def isEmpty (h : History) : Bool :=
  h.len == 0

/-- The outcome recorded `i` branches ago. -/
def bit (h : History) (i : Nat) : Bool :=
  h.bits.testBit i

/-- The `n` newest outcomes as a number. -/
def lowBits (h : History) (n : Nat) : Nat :=
  h.bits &&& mask n

/-- The register after an outcome entered. -/
def shifted (h : History) (taken : Bool) : History :=
  { h with bits := (h.bits <<< 1 ||| taken.toNat) &&& mask h.len }

/-- The register after several outcomes entered, the first one first. -/
def push (h : History) (outcomes : List Bool) : History :=
  outcomes.foldl shifted h

@[simp]
theorem len_ofLength (len : Nat) : (ofLength len).len = len :=
  rfl

@[simp]
theorem len_withValue (len value : Nat) : (withValue len value).len = len :=
  rfl

@[simp]
theorem len_shifted (h : History) (taken : Bool) : (h.shifted taken).len = h.len :=
  rfl

@[simp]
theorem push_nil (h : History) : h.push [] = h :=
  rfl

@[simp]
theorem push_cons (h : History) (taken : Bool) (outcomes : List Bool) :
    h.push (taken :: outcomes) = (h.shifted taken).push outcomes :=
  rfl

theorem bits_shifted_lt (h : History) (taken : Bool) :
    (h.shifted taken).bits < 2 ^ min h.len 64 :=
  and_mask_lt _ _

end History

end BranchPrediction
