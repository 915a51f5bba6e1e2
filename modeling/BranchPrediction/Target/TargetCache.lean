import BranchPrediction.Target.CounterBuffer
import BranchPrediction.Target.TargetBuffer
/-!
# Target caches

The target cache of a prediction unit is a target buffer with or without
counters.

## Main definitions

* `TargetCache`: one of the two buffers
* `TargetCache.ofConfig`: the empty cache of a configuration
* `TargetCache.lookup`, `TargetCache.predict`, `TargetCache.update`
-/

namespace BranchPrediction

/-- A target buffer with or without counters. -/
inductive TargetCache where
  | counterIntegrated (buffer : CounterBuffer)
  | targetOnly (buffer : TargetBuffer)

namespace TargetCache

/-- The empty cache of a valid configuration. -/
def ofConfig (c : Config) : Except ConfigError TargetCache := do
  c.validate
  match c.targetCache with
  | .counterIntegrated => return counterIntegrated (← CounterBuffer.ofSize c.btbEntries)
  | .targetOnly => return targetOnly (← TargetBuffer.ofSize c.btbEntries)

/-- The kind of the cache. -/
def kind : TargetCache → TargetCacheKind
  | counterIntegrated _ => .counterIntegrated
  | targetOnly _ => .targetOnly

/-- The stored target of the branch at `pc`, whatever its counter says. -/
def lookup (t : TargetCache) (pc : Addr) : Option Addr :=
  match t with
  | counterIntegrated b => (b.lookup pc).map (·.target)
  | targetOnly b => b.lookup pc

/-- The prediction of the cache alone. -/
def predict (t : TargetCache) (pc : Addr) : Prediction :=
  match t with
  | counterIntegrated b => b.predict pc
  | targetOnly b => b.predict pc

def update (t : TargetCache) (br : Branch) : TargetCache :=
  match t with
  | counterIntegrated b => counterIntegrated (b.update br)
  | targetOnly b => targetOnly (b.update br)

end TargetCache

end BranchPrediction
