import BranchPrediction.Command.Execution
/-!
# The command line program

The program reads the files that its command names, carries the command out and
writes the outcome.
-/

namespace BranchPrediction

/-- The text of a file, or why it cannot be read. -/
def readFile (path : String) : IO (Except ReadError String) := do
  try
    let content ← IO.FS.readBinFile path
    match String.fromUTF8? content with
    | some text => return .ok text
    | none => return .error .invalidText
  catch e =>
    match e with
    | .noFileOrDirectory .. => return .error .notFound
    -- A failure that names the path was met on the way to the file, the others
    -- while its content was read.
    | .inappropriateType (some _) .. => return .error .notDirectory
    | .inappropriateType none .. => return .error .isDirectory
    | .invalidArgument (some _) .. => return .error .nameTooLong
    | e => return .error (.other (toString e))

end BranchPrediction

open BranchPrediction in
/-- Carries out the command of the arguments. -/
def main (args : List String) : IO UInt32 := do
  match Command.parse args with
  | none =>
    IO.eprintln "usage: bpsim [-v] run|sweep [options]"
    return 2
  | some command =>
    let files ← command.paths.mapM fun path => do return (path, ← readFile path)
    let outcome := command.execute ⟨fun path => (files.lookup path).getD (.error .notFound)⟩
    IO.print outcome.stdout
    IO.eprint outcome.stderr
    return UInt32.ofNat outcome.exit
