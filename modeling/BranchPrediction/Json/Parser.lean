import BranchPrediction.Json.Lexer
/-!
# Reading JSON values

Tokens are read one at a time against an explicit stack of the arrays and
objects that are still open, so values may be nested to any depth.

## Main definitions

* `Json.Frame`: an open array or object
* `Json.Reading`: what has been read and what may follow
* `Json.parse`: the value of a text
-/

namespace BranchPrediction.Json

/-- An array or object that waits for a value; lists are kept in reverse. -/
inductive Frame where
  /-- An array with the items before the awaited one. -/
  | items (done : List Json)
  /-- An object with the members before the awaited value, and its key. -/
  | member (done : List (Option String × Json)) (key : Option String)

/-- What has been read, inside the frames `outer`, and what may follow. -/
inductive Reading where
  | value (outer : List Frame)
  /-- After an opening bracket. -/
  | firstItem (outer : List Frame)
  /-- After an opening brace. -/
  | firstKey (outer : List Frame)
  | key (done : List (Option String × Json)) (outer : List Frame)
  | colon (done : List (Option String × Json)) (key : Option String) (outer : List Frame)
  | afterItem (done : List Json) (outer : List Frame)
  | afterMember (done : List (Option String × Json)) (outer : List Frame)
  /-- Nothing may follow. -/
  | done (value : Json)

namespace Reading

/-- A value is complete and takes its place in the innermost frame. -/
def complete (v : Json) : List Frame → Reading
  | [] => done v
  | .items before :: outer => afterItem (v :: before) outer
  | .member before name :: outer => afterMember ((name, v) :: before) outer

/-- The first token of a value. -/
def start (outer : List Frame) : Token → Option Reading
  | .null => some (complete .null outer)
  | .bool b => some (complete (.bool b) outer)
  | .num lexeme => some (complete (.num lexeme) outer)
  | .str text => some (complete (.str text) outer)
  | .leftBracket => some (firstItem outer)
  | .leftBrace => some (firstKey outer)
  | _ => none

/-- Reads one token. -/
def step : Reading → Token → Option Reading
  | value outer, t => start outer t
  | firstItem outer, .rightBracket => some (complete (.arr []) outer)
  | firstItem outer, t => start (.items [] :: outer) t
  | firstKey outer, .rightBrace => some (complete (.obj []) outer)
  | firstKey outer, .str text => some (colon [] text outer)
  | key before outer, .str text => some (colon before text outer)
  | colon before text outer, .colon => some (value (.member before text :: outer))
  | afterItem before outer, .comma => some (value (.items before :: outer))
  | afterItem before outer, .rightBracket => some (complete (.arr before.reverse) outer)
  | afterMember before outer, .comma => some (key before outer)
  | afterMember before outer, .rightBrace => some (complete (.obj before.reverse) outer)
  | _, _ => none

/-- The value, when nothing follows. -/
def result? : Reading → Option Json
  | done v => some v
  | _ => none

end Reading

/-- The value of a sequence of tokens. -/
def ofTokens (tokens : List Token) : Option Json := do
  let final ← tokens.foldlM Reading.step (.value [])
  final.result?

/-- The value of a text. -/
def parse (text : String) : Option Json := do
  ofTokens (← lex text.toList)

end BranchPrediction.Json
