/-!
# Linear feedback shift register

A 16-bit register whose feedback bit is the exclusive or of bits 0, 2, 3 and 5.
It moves right, and the feedback enters at the top.

## Main definitions

* `Lfsr`: the register
* `Lfsr.seed`: its initial content
* `Lfsr.next`: one step
-/

namespace BranchPrediction

/-- A 16-bit shift register with feedback. -/
@[ext]
structure Lfsr where
  bits : BitVec 16
  deriving DecidableEq

namespace Lfsr

/-- The initial content. -/
def seed : Lfsr :=
  ⟨0xACE1#16⟩

/-- The bit that enters at the next step. -/
def feedback (s : Lfsr) : Bool :=
  s.bits.getLsbD 0 ^^ s.bits.getLsbD 2 ^^ s.bits.getLsbD 3 ^^ s.bits.getLsbD 5

/-- The register after one step. -/
def next (s : Lfsr) : Lfsr :=
  ⟨s.bits >>> 1 ||| (if s.feedback then 0x8000#16 else 0#16)⟩

/-- Bit `i` of the register. -/
def bit (s : Lfsr) (i : Nat) : Bool :=
  s.bits.getLsbD i

end Lfsr

end BranchPrediction
