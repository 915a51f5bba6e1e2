import BranchPrediction.Command.Arguments
import BranchPrediction.Command.Result
import BranchPrediction.Storage.Loading
/-!
# Carrying out commands

A command either succeeds and writes its whole result, or fails and writes one
message and nothing else. The configuration is settled before the traces.

## Main definitions

* `CommandError`: why a command fails
* `Outcome`: what a command leaves behind
* `Command.lines`: the result of a command
* `Command.execute`: the outcome of a command
-/

namespace BranchPrediction

/-- Why a command fails. -/
inductive CommandError where
  | load (error : LoadError)
  | config (error : ConfigError)
  | unknownWorkload (name : String)
  deriving DecidableEq

/-- The wording of a failure. -/
def CommandError.message : CommandError → String
  | load error => error.message
  | config error => error.message
  | unknownWorkload name => "unknown workload '" ++ name ++ "'"

/-- What a command leaves behind. -/
structure Outcome where
  exit : Nat
  stdout : String
  stderr : String
  deriving DecidableEq

/-- The program's name and version. -/
def programVersion : String :=
  "bpsim 0.3.0"

/-- The configuration of a source. -/
def ConfigSource.resolve (r : Reader) : ConfigSource → Except CommandError Config
  | default => .ok Config.default
  | file path => (r.config path).mapError .load
  | preset name => (Config.preset name).mapError .config

/-- The workloads of a name; `all` names them all. -/
def workloadsOf (name : String) : Except CommandError (List Workload) :=
  if sameIgnoringCase name "all" then .ok Workload.all
  else
    match Workload.ofName? name with
    | some w => .ok [w]
    | none => .error (.unknownWorkload name)

/-- The named traces of a source. A trace from a file has its path as name. -/
def TraceSource.resolve (r : Reader) : TraceSource → Except CommandError (List NamedTrace)
  | workload name iterations => do
    let workloads ← workloadsOf name
    return workloads.map fun w => (w.name, w.generate iterations)
  | file path => do
    let trace ← (r.trace path).mapError .load
    return [(path, trace)]

namespace Command

/-- The lines that a command writes. -/
def lines (r : Reader) : Command → Except CommandError (List String)
  | run config traces json => do
    let c ← config.resolve r
    let traces ← traces.resolve r
    (renderRun c traces json).mapError .config
  | sweep iterations => (sweepLines iterations).mapError .config
  | version => .ok [programVersion]

/-- The outcome of a command. -/
def execute (r : Reader) (c : Command) : Outcome :=
  match c.lines r with
  | .ok lines => ⟨0, String.join (lines.map (· ++ "\n")), ""⟩
  | .error e => ⟨1, "", "Error: " ++ e.message ++ "\n"⟩

/-- The files that a command reads. -/
def paths : Command → List String
  | run config traces _ =>
    (match config with | .file path => [path] | _ => []) ++
      (match traces with | .file path => [path] | _ => [])
  | _ => []

end Command

end BranchPrediction
