/-!
# JSON values

A value keeps what its text says without loss: numbers as they are written, and
object members in order, repeated keys included. A string literal may hold
escapes that name no text, namely unpaired surrogates; such a literal is kept as
a string without text, since it is harmless where nobody looks at it.

## Main definitions

* `Json`: the values
* `Json.variant?`: the name that a value gives to a choice
* `Json.fields?`: the values of the named fields of a record
-/

namespace BranchPrediction

/-- A JSON value. -/
inductive Json where
  | null
  | bool (b : Bool)
  /-- A number as it is written. -/
  | num (lexeme : String)
  /-- A string; without text if its escapes name none. -/
  | str (text : Option String)
  | arr (items : List Json)
  | obj (members : List (Option String × Json))

namespace Json

instance : Inhabited Json :=
  ⟨null⟩

/-- A string with a text. -/
def ofString (s : String) : Json :=
  str (some s)

/-- A natural number. -/
def ofNat (n : Nat) : Json :=
  num (toString n)

/-- An object with the given members. -/
def ofMembers (members : List (String × Json)) : Json :=
  obj (members.map fun (key, value) => (some key, value))

/-- The name of a choice: a string, or an object whose only key is the name and
whose only value is null. -/
def variant? : Json → Option String
  | str text => text
  | obj [(key, null)] => key
  | _ => none

/-- The value of a key that occurs at most once. The outer `none` says that the
key is repeated, the inner one that it does not occur. -/
def member? (members : List (Option String × Json)) (key : String) : Option (Option Json) :=
  match members.filter fun m => m.1 == some key with
  | [] => some none
  | [(_, value)] => some (some value)
  | _ => none

/-- The values of the named fields of a record, in the order of the names, with
`none` for a missing field. A record is an object, in which other keys are
skipped, every key has a text and the named ones are not repeated, or an array
of the values in the order of the names, which may end early. -/
def fields? (keys : List String) : Json → Option (List (Option Json))
  | arr items =>
    if items.length ≤ keys.length then
      some (items.map some ++ List.replicate (keys.length - items.length) none)
    else none
  | obj members =>
    if members.all fun m => m.1.isSome then keys.mapM (member? members) else none
  | _ => none

end Json

end BranchPrediction
