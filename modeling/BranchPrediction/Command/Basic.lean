/-!
# Commands

What the command line can ask for: to run one configuration on workloads or on a
trace, to compare all presets on all workloads, or to show the version.

## Main definitions

* `ConfigSource`, `TraceSource`: where the inputs of a run come from
* `Command`: the commands
-/

namespace BranchPrediction

/-- Where a configuration comes from. -/
inductive ConfigSource where
  | default
  | file (path : String)
  | preset (name : String)
  deriving DecidableEq

/-- Where the branches of a run come from. -/
inductive TraceSource where
  /-- A workload, or all of them, with a number of invocations. -/
  | workload (name : String) (iterations : Nat)
  | file (path : String)
  deriving DecidableEq

inductive Command where
  /-- Runs a configuration, with results as JSON or as text. -/
  | run (config : ConfigSource) (traces : TraceSource) (json : Bool)
  | sweep (iterations : Nat)
  | version
  deriving DecidableEq

end BranchPrediction
