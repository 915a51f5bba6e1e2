import BranchPrediction.Coding.Config
import BranchPrediction.Coding.Trace
import BranchPrediction.Config.Validation
import BranchPrediction.Storage.WorkingDirectory
/-!
# Loading configurations and traces

Configurations are read and validated; traces are only read. Files come from a
reader, a function from paths to texts.

## Main definitions

* `LoadError`: why loading fails, with its wording
* `Config.ofJson`: the valid configuration of a text
* `Reader`: where files come from
* `Reader.config`, `Reader.trace`: the configuration or trace in a file
-/

namespace BranchPrediction

/-- Why a configuration or a trace cannot be loaded. -/
inductive LoadError where
  | config (error : ConfigError)
  /-- The text is not JSON of the expected form. -/
  | malformed
  | unreadable (path : String) (reason : ReadError)
  deriving DecidableEq

/-- The wording of a failure. -/
def LoadError.message : LoadError → String
  | config error => "invalid configuration: " ++ error.message
  | malformed => "malformed JSON: the text does not have the expected form"
  | unreadable path reason => "could not read '" ++ path ++ "': " ++ reason.message

/-- The configuration of a text, which must be valid. -/
def Config.ofJson (text : String) : Except LoadError Config :=
  match Coding.config.read? text with
  | none => .error .malformed
  | some c =>
    match c.validate with
    | .error e => .error (.config e)
    | .ok () => .ok c

/-- The trace of a text. -/
def traceOfJson (text : String) : Except LoadError (List Branch) :=
  match Coding.trace.read? text with
  | none => .error .malformed
  | some trace => .ok trace

/-- Where files come from. -/
structure Reader where
  /-- The text of the file at a path. -/
  text : String → Except ReadError String

namespace Reader

/-- The files that are reached from a working directory. -/
def ofTree (t : FileTree) : Reader :=
  ⟨t.readText⟩

/-- The text of a file, with the path in the failure. -/
def load (r : Reader) (path : String) : Except LoadError String :=
  match r.text path with
  | .error reason => .error (.unreadable path reason)
  | .ok text => .ok text

/-- The valid configuration in a file. -/
def config (r : Reader) (path : String) : Except LoadError Config := do
  Config.ofJson (← r.load path)

/-- The trace in a file. -/
def trace (r : Reader) (path : String) : Except LoadError (List Branch) := do
  traceOfJson (← r.load path)

end Reader

end BranchPrediction
