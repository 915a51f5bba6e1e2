import BranchPrediction.Json.Number
import BranchPrediction.Json.Parser
import BranchPrediction.Json.Token
/-!
# Codings

A coding writes the values of a type as JSON and reads them back. Reading is
more liberal than writing: names may have aliases, and records may be arrays.

## Main definitions

* `Coding`: writing and reading for one type
* `Coding.write`, `Coding.read?`: the same for texts
* `Coding.bool`, `Coding.natBelow`, `Coding.option`, `Coding.list`, `Coding.names`:
  codings of basic types
-/

namespace BranchPrediction

/-- How the values of a type are written as JSON and read back. -/
structure Coding (α : Type) where
  encode : α → Json
  decode : Json → Option α

namespace Coding

variable {α β : Type}

/-- The compact text of a value. -/
def write (c : Coding α) (a : α) : String :=
  (c.encode a).render

/-- The value of a text. -/
def read? (c : Coding α) (text : String) : Option α :=
  (Json.parse text).bind c.decode

/-- Truth values. -/
def bool : Coding Bool where
  encode := .bool
  decode
    | .bool b => some b
    | _ => none

/-- Natural numbers below a limit. -/
def natBelow (limit : Nat) : Coding Nat where
  encode := .ofNat
  decode j := j.natural?.filter (· < limit)

/-- Values that may be missing; a missing one is null. -/
def option (c : Coding α) : Coding (Option α) where
  encode
    | some a => c.encode a
    | none => .null
  decode
    | .null => some none
    | j => some <$> c.decode j

/-- Lists, as arrays. -/
def list (c : Coding α) : Coding (List α) where
  encode as := .arr (as.map c.encode)
  decode
    | .arr items => items.mapM c.decode
    | _ => none

/-- The values of a finite type by name. Some names have further spellings. -/
def names (all : List α) (name : α → String) (aliases : List (String × α)) : Coding α where
  encode a := .ofString (name a)
  decode j := do
    let text ← j.variant?
    (all.find? fun a => name a == text).or (aliases.lookup text)

end Coding

end BranchPrediction
