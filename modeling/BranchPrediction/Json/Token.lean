import BranchPrediction.Json.Basic
/-!
# JSON tokens

A value is written as a sequence of tokens without anything between them.

## Main definitions

* `Json.Token`: the tokens
* `Json.Token.chars`: how a token is written
* `Json.tokens`: the tokens of a value
* `Json.render`: the compact text of a value
-/

namespace BranchPrediction.Json

/-- A JSON token. -/
inductive Token where
  | leftBrace
  | rightBrace
  | leftBracket
  | rightBracket
  | colon
  | comma
  | null
  | bool (b : Bool)
  | num (lexeme : String)
  | str (text : Option String)
  deriving DecidableEq

/-! ## Written tokens -/

/-- A character inside a string literal. Quotes, backslashes and control
characters are escaped; the short escapes are preferred. -/
def escape (c : Char) : List Char :=
  match c with
  | '"' => ['\\', '"']
  | '\\' => ['\\', '\\']
  | '\x08' => ['\\', 'b']
  | '\x0c' => ['\\', 'f']
  | '\n' => ['\\', 'n']
  | '\r' => ['\\', 'r']
  | '\t' => ['\\', 't']
  | c =>
    if c.toNat < 0x20 then
      ['\\', 'u', '0', '0', Nat.digitChar (c.toNat / 16), Nat.digitChar (c.toNat % 16)]
    else [c]

/-- A string literal; one without text is written as an unpaired surrogate. -/
def literal : Option String → List Char
  | some s => '"' :: s.toList.flatMap escape ++ ['"']
  | none => "\"\\ud800\"".toList

/-- How a token is written. -/
def Token.chars : Token → List Char
  | leftBrace => ['\x7b']
  | rightBrace => ['\x7d']
  | leftBracket => ['[']
  | rightBracket => [']']
  | colon => [':']
  | comma => [',']
  | null => ['n', 'u', 'l', 'l']
  | bool true => ['t', 'r', 'u', 'e']
  | bool false => ['f', 'a', 'l', 's', 'e']
  | num lexeme => lexeme.toList
  | str text => literal text

/-! ## Written values -/

mutual

/-- The tokens of a value. -/
def tokens : Json → List Token
  | null => [.null]
  | bool b => [.bool b]
  | num lexeme => [.num lexeme]
  | str text => [.str text]
  | arr items => .leftBracket :: itemTokens items ++ [.rightBracket]
  | obj members => .leftBrace :: memberTokens members ++ [.rightBrace]

/-- The tokens between the brackets of an array. -/
def itemTokens : List Json → List Token
  | [] => []
  | [item] => item.tokens
  | item :: next :: rest => item.tokens ++ .comma :: itemTokens (next :: rest)

/-- The tokens between the braces of an object. -/
def memberTokens : List (Option String × Json) → List Token
  | [] => []
  | [(key, value)] => .str key :: .colon :: value.tokens
  | (key, value) :: next :: rest =>
    .str key :: .colon :: value.tokens ++ .comma :: memberTokens (next :: rest)

end

/-- The compact text of a value. -/
def render (j : Json) : String :=
  String.ofList (j.tokens.flatMap Token.chars)

end BranchPrediction.Json
