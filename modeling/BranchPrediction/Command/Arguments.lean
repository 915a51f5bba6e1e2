import BranchPrediction.Power
import BranchPrediction.Command.Basic
/-!
# Command line arguments

Options are given by a long name after two dashes or by a letter after one. A
value follows as the next argument, after an equals sign, or directly after the
letter; letters of options without value may be joined. Each option may be given
once. Options before the name of the command are the program's, those after it
the command's; more messages may be asked for in both places.

## Main definitions

* `Opt`: the options
* `Opt.scan`: the options at the front of an argument list
* `Command.parse`: the command of an argument list
-/

namespace BranchPrediction

/-- The options. -/
inductive Opt where
  | verbose
  | version
  | config
  | preset
  | workload
  | iterations
  | trace
  | json
  deriving DecidableEq

namespace Opt

def long : Opt → String
  | verbose => "verbose"
  | version => "version"
  | config => "config"
  | preset => "preset"
  | workload => "workload"
  | iterations => "iterations"
  | trace => "trace"
  | json => "json"

/-- The letter, if there is one. -/
def letter : Opt → Option Char
  | verbose => some 'v'
  | version => some 'V'
  | config => some 'c'
  | preset => some 'p'
  | workload => some 'w'
  | iterations => some 'i'
  | trace => some 't'
  | json => none

/-- Whether the option has a value. -/
def hasValue : Opt → Bool
  | config | preset | workload | iterations | trace => true
  | verbose | version | json => false

/-- A given option with its value. -/
abbrev Given := Opt × Option String

/-- Whether an argument can only be an option. -/
def looksLike (arg : String) : Bool :=
  arg.startsWith "-" && arg != "-"

/-- The options of joined letters, and the last one if its value is still to
come. Nothing after the version option is looked at. -/
def ofLetters (allowed : List Opt) : List Char → Option (List Given × Option Opt)
  | [] => some ([], none)
  | c :: rest => do
    let o ← allowed.find? fun o => o.letter == some c
    if o.hasValue then
      match rest with
      | [] => return ([], some o)
      | '=' :: value => return ([(o, some (String.ofList value))], none)
      | value => return ([(o, some (String.ofList value))], none)
    else if o = version then return ([(o, none)], none)
    else
      let (given, waiting) ← ofLetters allowed rest
      return ((o, none) :: given, waiting)

/-- The option of a long name with what follows the equals sign, if there is one;
or the option itself, if its value is still to come. -/
def ofLong (allowed : List Opt) (chars : List Char) : Option (List Given × Option Opt) := do
  let name := chars.takeWhile (· != '=')
  let o ← allowed.find? fun o => o.long == String.ofList name
  match chars.drop name.length, o.hasValue with
  | [], true => return ([], some o)
  | [], false => return ([(o, none)], none)
  | _ :: value, true => return ([(o, some (String.ofList value))], none)
  | _ :: _, false => none

/-- The options of one argument that can only be an option. -/
def ofArgument (allowed : List Opt) (arg : String) : Option (List Given × Option Opt) :=
  match arg.toList with
  | '-' :: '-' :: name => ofLong allowed name
  | '-' :: letters => ofLetters allowed letters
  | _ => none

/-- The options at the front of an argument list, up to the first argument that
is none, with the arguments from there on. An option may wait for its value. Two
dashes alone end the options. -/
def scan (allowed : List Opt) : Option Opt → List String → Option (List Given × List String)
  | none, [] => some ([], [])
  | some _, [] => none
  | some o, arg :: rest =>
    if looksLike arg then none
    else (fun (given, rest) => ((o, some arg) :: given, rest)) <$> scan allowed none rest
  | none, arg :: rest =>
    if looksLike arg && arg != "--" then do
      let (found, waiting) ← ofArgument allowed arg
      if found.any fun g => g.1 == version then return (found, rest)
      let (given, rest) ← scan allowed waiting rest
      return (found ++ given, rest)
    else some ([], arg :: rest)

/-- Whether an option is given twice. -/
def repeated (given : List Given) : Bool :=
  match given with
  | [] => false
  | g :: rest => rest.any (fun other => other.1 == g.1) || repeated rest

/-- Whether an option is given. -/
def isGiven (given : List Given) (o : Opt) : Bool :=
  given.any fun g => g.1 == o

/-- The value of an option, if it is given. -/
def value? (given : List Given) (o : Opt) : Option String :=
  (given.lookup o).join

/-- The path that an option gives, if it is given. Paths are not empty. -/
def path? (given : List Given) (o : Opt) : Option (Option String) :=
  match value? given o with
  | some "" => none
  | path => some path

/-- A number below `2 ^ 64`: digits after an optional plus sign. -/
def number? (text : String) : Option Nat :=
  let digits := match text.toList with
    | '+' :: digits => digits
    | digits => digits
  if digits ≠ [] ∧ digits.all Char.isDigit then
    (some (Nat.ofDigitChars 10 digits 0)).filter (· < 2 ^ 64)
  else none

/-- The number of invocations; twenty if it is not given. -/
def iterations? (given : List Given) : Option Nat :=
  match value? given iterations with
  | some text => number? text
  | none => some 20

end Opt

namespace Command

/-- The options of the program. -/
def programOptions : List Opt :=
  [.verbose, .version]

/-- The options of a run. -/
def runOptions : List Opt :=
  [.verbose, .config, .preset, .workload, .iterations, .trace, .json]

/-- The options of a comparison. -/
def sweepOptions : List Opt :=
  [.verbose, .iterations]

/-- The options of a command, which takes nothing else. -/
def optionsOf (allowed : List Opt) (args : List String) : Option (List Opt.Given) := do
  let (given, rest) ← Opt.scan allowed none args
  if Opt.repeated given then none
  else if rest = [] ∨ rest = ["--"] then some given
  else none

/-- A run with given options. A configuration file and a preset exclude each
other; a trace file makes the workload irrelevant. -/
def ofRunOptions (given : List Opt.Given) : Option Command := do
  let configPath ← Opt.path? given .config
  let tracePath ← Opt.path? given .trace
  let iterations ← Opt.iterations? given
  let config ← match configPath, Opt.value? given .preset with
    | some _, some _ => none
    | some path, none => some (ConfigSource.file path)
    | none, some name => some (ConfigSource.preset name)
    | none, none => some ConfigSource.default
  let traces := match tracePath with
    | some path => TraceSource.file path
    | none => TraceSource.workload ((Opt.value? given .workload).getD "all") iterations
  return run config traces (Opt.isGiven given .json)

/-- The command of an argument list, if the list is acceptable. -/
def parse (args : List String) : Option Command := do
  let (given, rest) ← Opt.scan programOptions none args
  if Opt.repeated given then none
  else if Opt.isGiven given .version then return version
  else
    match rest with
    | "run" :: rest => ofRunOptions (← optionsOf runOptions rest)
    | "sweep" :: rest => return sweep (← Opt.iterations? (← optionsOf sweepOptions rest))
    | _ => none

end Command

end BranchPrediction
