import BranchPrediction.Json.Token
/-!
# Reading JSON tokens

The text is read one character at a time. Blanks may stand between tokens and
nowhere else. Numbers extend as far as they can.

## Main definitions

* `Json.Piece`: what one character or escape of a string literal stands for
* `Json.Piece.decode`: the text of a literal, if it has one
* `Json.NumberPart`: how much of a number has been read
* `Json.Lexer`: what has been read so far
* `Json.lex`: the tokens of a text
-/

namespace BranchPrediction.Json

/-! ## String literals -/

/-- What one character or escape of a string literal stands for. -/
inductive Piece where
  | char (c : Char)
  /-- A 16-bit code unit, given by four hexadecimal digits. -/
  | unit (n : Nat)
  deriving DecidableEq

/-- The first half of a surrogate pair. -/
def isHighSurrogate (n : Nat) : Bool :=
  0xD800 ≤ n && n < 0xDC00

/-- The second half of a surrogate pair. -/
def isLowSurrogate (n : Nat) : Bool :=
  0xDC00 ≤ n && n < 0xE000

/-- The text of a literal. Code units that are surrogates must form pairs. -/
def Piece.decode : List Piece → Option (List Char)
  | [] => some []
  | char c :: rest => (c :: ·) <$> decode rest
  | unit high :: rest =>
    if isHighSurrogate high then
      match rest with
      | unit low :: rest =>
        if isLowSurrogate low then
          (Char.ofNat (0x10000 + (high - 0xD800) * 0x400 + (low - 0xDC00)) :: ·) <$> decode rest
        else none
      | _ => none
    else if isLowSurrogate high then none
    else (Char.ofNat high :: ·) <$> decode rest

/-- The character that a one-letter escape stands for. -/
def unescape : Char → Option Char
  | '"' => some '"'
  | '\\' => some '\\'
  | '/' => some '/'
  | 'b' => some '\x08'
  | 'f' => some '\x0c'
  | 'n' => some '\n'
  | 'r' => some '\r'
  | 't' => some '\t'
  | _ => none

/-- The value of a hexadecimal digit of either case. -/
def hexValue (c : Char) : Option Nat :=
  if '0' ≤ c ∧ c ≤ '9' then some (c.toNat - '0'.toNat)
  else if 'a' ≤ c ∧ c ≤ 'f' then some (c.toNat - 'a'.toNat + 10)
  else if 'A' ≤ c ∧ c ≤ 'F' then some (c.toNat - 'A'.toNat + 10)
  else none

/-! ## Numbers -/

/-- How much of a number has been read. -/
inductive NumberPart where
  | minus
  /-- A leading zero, after which no digit may follow. -/
  | zero
  /-- Digits before the point. -/
  | whole
  | point
  /-- Digits after the point. -/
  | fraction
  /-- The letter that starts the exponent. -/
  | mark
  /-- The sign of the exponent. -/
  | sign
  /-- Digits of the exponent. -/
  | exponent
  deriving DecidableEq

namespace NumberPart

/-- What a character makes of a number, if it continues it. -/
def next (p : NumberPart) (c : Char) : Option NumberPart :=
  match p with
  | minus => if c = '0' then some zero else if c.isDigit then some whole else none
  | zero => if c = '.' then some point else if c = 'e' ∨ c = 'E' then some mark else none
  | whole =>
    if c.isDigit then some whole
    else if c = '.' then some point
    else if c = 'e' ∨ c = 'E' then some mark
    else none
  | point => if c.isDigit then some fraction else none
  | fraction =>
    if c.isDigit then some fraction else if c = 'e' ∨ c = 'E' then some mark else none
  | mark =>
    if c.isDigit then some exponent else if c = '+' ∨ c = '-' then some sign else none
  | sign => if c.isDigit then some exponent else none
  | exponent => if c.isDigit then some exponent else none

/-- The part of a number that its first character is. -/
def first (c : Char) : Option NumberPart :=
  if c = '-' then some minus else minus.next c

/-- Whether a number may end here. -/
def complete : NumberPart → Bool
  | zero | whole | fraction | exponent => true
  | minus | point | mark | sign => false

end NumberPart

/-! ## The lexer -/

/-- What has been read so far; lists are kept in reverse. -/
inductive Lexer where
  | between (done : List Token)
  /-- Inside the word for a token, with the letters that are still to come. -/
  | word (done : List Token) (token : Token) (missing : List Char)
  | number (done : List Token) (part : NumberPart) (read : List Char)
  | string (done : List Token) (pieces : List Piece)
  | escape (done : List Token) (pieces : List Piece)
  /-- Inside a numeric escape, with the number of digits still to come and the
  value of those read. -/
  | hex (done : List Token) (pieces : List Piece) (missing value : Nat)

namespace Lexer

/-- The first character of a token, or a blank. -/
def start (done : List Token) (c : Char) : Option Lexer :=
  match c with
  | ' ' | '\t' | '\n' | '\r' => some (between done)
  | '\x7b' => some (between (.leftBrace :: done))
  | '\x7d' => some (between (.rightBrace :: done))
  | '[' => some (between (.leftBracket :: done))
  | ']' => some (between (.rightBracket :: done))
  | ':' => some (between (.colon :: done))
  | ',' => some (between (.comma :: done))
  | '"' => some (string done [])
  | 'n' => some (word done .null ['u', 'l', 'l'])
  | 't' => some (word done (.bool true) ['r', 'u', 'e'])
  | 'f' => some (word done (.bool false) ['a', 'l', 's', 'e'])
  | c => (NumberPart.first c).map fun part => number done part [c]

/-- The token of a string literal. -/
def stringToken (pieces : List Piece) : Token :=
  .str ((Piece.decode pieces.reverse).map String.ofList)

/-- The token of a number. -/
def numberToken (read : List Char) : Token :=
  .num (String.ofList read.reverse)

/-- Reads one character. -/
def step : Lexer → Char → Option Lexer
  | between done, c => start done c
  | word done token missing, c =>
    match missing with
    | [] => none
    | [last] => if c = last then some (between (token :: done)) else none
    | next :: rest => if c = next then some (word done token rest) else none
  | number done part read, c =>
    match part.next c with
    | some part => some (number done part (c :: read))
    | none => if part.complete then start (numberToken read :: done) c else none
  | string done pieces, c =>
    if c = '"' then some (between (stringToken pieces :: done))
    else if c = '\\' then some (escape done pieces)
    else if c.toNat < 0x20 then none
    else some (string done (.char c :: pieces))
  | escape done pieces, c =>
    if c = 'u' then some (hex done pieces 4 0)
    else (unescape c).map fun c => string done (.char c :: pieces)
  | hex done pieces missing value, c => do
    let digit ← hexValue c
    let value := value * 16 + digit
    match missing with
    | 0 | 1 => some (string done (.unit value :: pieces))
    | missing + 1 => some (hex done pieces missing value)

/-- The tokens, in reverse, when the text ends here. -/
def finish : Lexer → Option (List Token)
  | between done => some done
  | number done part read => if part.complete then some (numberToken read :: done) else none
  | _ => none

end Lexer

/-- The tokens of a text. -/
def lex (chars : List Char) : Option (List Token) := do
  let final ← chars.foldlM Lexer.step (.between [])
  return (← final.finish).reverse

end BranchPrediction.Json
