import BranchPrediction.Direction.GShare
import BranchPrediction.Target.TargetBuffer
/-!
# Global history prediction gated by a target buffer

A global history predictor together with a target buffer of its own: a branch is
predicted taken only if its target is known.

## Main definitions

* `GatedGShare`: the predictor with its buffer
* `GatedGShare.predict`, `GatedGShare.predictTarget`: direction and target
-/

namespace BranchPrediction

/-- A global history predictor with a private target buffer. -/
structure GatedGShare where
  gshare : GShare
  /-- The private targets. -/
  buffer : TargetBuffer

namespace GatedGShare

/-- The index scheme that a configuration asks for; history is never folded. -/
def schemeOf (c : Config) : IndexScheme :=
  if c.useHashing then .xor else .direct

/-- The fresh predictor of a valid configuration. -/
def ofConfig (c : Config) : Except ConfigError GatedGShare := do
  let gshare ← GShare.withScheme c (schemeOf c) c.shiftOrder
  let buffer ← TargetBuffer.ofSize c.btbEntries
  return ⟨gshare, buffer⟩

def name (_ : GatedGShare) : String :=
  "gshare-btb"

def predict (p : GatedGShare) (pc : Addr) : Bool :=
  p.gshare.predict pc && (p.buffer.lookup pc).isSome

/-- The private target of the branch at `pc`. -/
def predictTarget (p : GatedGShare) (pc : Addr) : Option Addr :=
  p.buffer.lookup pc

/-- A resolved branch updates both parts. -/
def update (p : GatedGShare) (br : Branch) : GatedGShare :=
  { gshare := p.gshare.update br, buffer := p.buffer.update br }

end GatedGShare

end BranchPrediction
