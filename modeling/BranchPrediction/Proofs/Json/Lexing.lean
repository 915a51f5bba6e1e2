import Mathlib.Data.List.Chain
import BranchPrediction.Json.Lexer
/-!
# Written tokens are read back

A text that is made of written tokens is read as these tokens, with any blanks
around them. The lexer needs no look-ahead: most tokens show their own end, and
what it has read of them is forgotten there. Two kinds need an argument.

A string literal is read in pieces, one for each character of its text. A control
character is written by its number and read as a code unit, all others are read as
themselves, and each piece stands for its character whatever follows.

A number does not show its end. It ends where a character does not continue it,
and that character is read once more as the start of what follows. So a number
must not be followed by a token that could continue it. In a written value it never
is, since two scalars are always kept apart by a mark.

## Main definitions

* `Json.Lexer.run`: what the lexer makes of the rest of a text
* `Json.Piece.Means`: the character that a piece stands for
* `Json.NumberPart.Writes`, `Json.Token.Legible`: numbers that can be read
* `Json.Spaced`: a text that consists of given tokens
* `Json.Separated`: scalars are kept apart

## Main results

* `Json.Lexer.run_literal`, `Json.Lexer.run_number`: literals and numbers
* `Json.writes_toDigits`: decimal digits are a number
* `Json.lex_of_spaced`: a text is read as the tokens that it consists of
-/

namespace BranchPrediction.Json

namespace Lexer

/-- The tokens, in reverse, of a text of which the given characters are still to
be read. -/
def run (l : Lexer) (chars : List Char) : Option (List Token) :=
  chars.foldlM step l >>= finish

theorem run_cons (l : Lexer) (c : Char) (chars : List Char) :
    l.run (c :: chars) = l.step c >>= fun l => l.run chars := by
  simp only [run, List.foldlM_cons, bind_assoc]

theorem run_cons_of_step {l next : Lexer} {c : Char} (moves : l.step c = some next)
    (chars : List Char) : l.run (c :: chars) = next.run chars := by
  rw [run_cons, moves]
  rfl

end Lexer

/-! ## String literals -/

namespace Piece

/-- A piece stands for a character, whatever follows it. -/
def Means (p : Piece) (c : Char) : Prop :=
  ∀ rest, decode (p :: rest) = (c :: ·) <$> decode rest

theorem means_char (c : Char) : (char c).Means c :=
  fun _ => rfl

/-- A code unit below the surrogates stands for its character. -/
theorem means_unit {c : Char} (low : c.toNat < 0xD800) : (unit c.toNat).Means c := by
  intro rest
  have high : isHighSurrogate c.toNat = false := by
    simp only [isHighSurrogate, Bool.and_eq_false_iff, decide_eq_false_iff_not]
    omega
  have second : isLowSurrogate c.toNat = false := by
    simp only [isLowSurrogate, Bool.and_eq_false_iff, decide_eq_false_iff_not]
    omega
  rw [decode.eq_def]
  simp only [high, second, Bool.false_eq_true, if_false, Char.ofNat_toNat]

end Piece

theorem hexValue_digitChar : ∀ n < 16, hexValue (Nat.digitChar n) = some n := by
  decide

theorem literal_none : literal none = ['"', '\\', 'u', 'd', '8', '0', '0', '"'] := by
  decide +kernel

namespace Lexer

variable (done : List Token) (pieces : List Piece)

/-- A numeric escape has four digits. -/
theorem run_unit {a b c d : Char} {i j k l : Nat} (first : hexValue a = some i)
    (second : hexValue b = some j) (third : hexValue c = some k) (fourth : hexValue d = some l)
    (rest : List Char) :
    (string done pieces).run ('\\' :: 'u' :: a :: b :: c :: d :: rest) =
      (string done (.unit (((i * 16 + j) * 16 + k) * 16 + l) :: pieces)).run rest := by
  change (hex done pieces 4 0).run (a :: b :: c :: d :: rest) = _
  simp only [run_cons, step, first, second, third, fourth, Option.bind_eq_bind, Option.bind_some,
    Nat.zero_mul, Nat.zero_add]

/-- A written character is read as one piece that stands for it. -/
theorem exists_run_escape (c : Char) :
    ∃ p : Piece, p.Means c ∧ ∀ rest,
      (string done pieces).run (Json.escape c ++ rest) = (string done (p :: pieces)).run rest := by
  unfold Json.escape
  split
  case h_8 notQuote notBackslash _ _ _ _ _ =>
    -- no escape of its own: by its number or as it is
    split
    case isTrue control =>
      refine ⟨.unit c.toNat, Piece.means_unit (by omega), fun rest => ?_⟩
      have high := hexValue_digitChar (c.toNat / 16) (by omega)
      have low := hexValue_digitChar (c.toNat % 16) (by omega)
      have zero : hexValue '0' = some 0 := rfl
      have value : ((0 * 16 + 0) * 16 + c.toNat / 16) * 16 + c.toNat % 16 = c.toNat := by omega
      have read := run_unit done pieces zero zero high low rest
      rwa [value] at read
    case isFalse visible =>
      refine ⟨.char c, Piece.means_char c, fun rest => ?_⟩
      have moves : (string done pieces).step c = some (string done (.char c :: pieces)) := by
        simp only [step, if_neg visible, if_neg notQuote, if_neg notBackslash]
      exact run_cons_of_step moves rest
  -- the short escapes
  all_goals exact ⟨.char _, Piece.means_char _, fun _ => rfl⟩

/-- A written text is read as pieces that stand for it. -/
theorem exists_run_flatMap_escape (s : List Char) :
    ∃ read : List Piece, Piece.decode read = some s ∧ ∀ rest,
      (string done pieces).run (s.flatMap Json.escape ++ rest) =
        (string done (read.reverse ++ pieces)).run rest := by
  induction s generalizing pieces with
  | nil => exact ⟨[], rfl, fun _ => rfl⟩
  | cons c s ih =>
    obtain ⟨p, means, first⟩ := exists_run_escape done pieces c
    obtain ⟨read, decoded, others⟩ := ih (p :: pieces)
    refine ⟨p :: read, ?_, fun rest => ?_⟩
    · rw [means, decoded]
      rfl
    · rw [List.flatMap_cons, List.append_assoc, first, others, List.reverse_cons,
        List.append_assoc, List.singleton_append]

/-- The end of a literal. -/
theorem run_close (rest : List Char) :
    (string done pieces).run ('"' :: rest) = (between (stringToken pieces :: done)).run rest :=
  rfl

/-- A string literal is read as its text. -/
theorem run_literal (text : Option String) (rest : List Char) :
    (between done).run (literal text ++ rest) = (between (.str text :: done)).run rest := by
  cases text with
  | none =>
    have d : hexValue 'd' = some 13 := rfl
    have eight : hexValue '8' = some 8 := rfl
    have zero : hexValue '0' = some 0 := rfl
    rw [literal_none]
    change (string done []).run ('\\' :: 'u' :: 'd' :: '8' :: '0' :: '0' :: '"' :: rest) = _
    rw [run_unit done [] d eight zero zero, run_close]
    rfl
  | some s =>
    obtain ⟨read, decoded, moves⟩ := exists_run_flatMap_escape done [] s.toList
    change (string done []).run (_ ++ ['"'] ++ rest) = _
    rw [List.append_assoc, moves, List.append_nil, List.singleton_append, run_close, stringToken,
      List.reverse_reverse, decoded, Option.map_some, String.ofList_toList]

end Lexer

/-! ## Numbers -/

/-- What may stand between tokens. -/
def blanks : List Char :=
  [' ', '\t', '\n', '\r']

namespace NumberPart

/-- How much of a number has been read after the given characters. -/
def after (p : NumberPart) (chars : List Char) : Option NumberPart :=
  chars.foldlM next p

/-- A written number, which may end where it ends. -/
def Writes (chars : List Char) : Prop :=
  ∃ c rest p q, chars = c :: rest ∧ first c = some p ∧ p.after rest = some q ∧ q.complete = true

theorem after_append (p : NumberPart) (s t : List Char) :
    p.after (s ++ t) = p.after s >>= fun q => q.after t :=
  List.foldlM_append

/-- What follows a number without continuing it. -/
def delimiters : List Char :=
  blanks ++ ['\x7b', '\x7d', '[', ']', ':', ',']

theorem next_delimiter (p : NumberPart) : ∀ c ∈ delimiters, p.next c = none := by
  cases p <;> simp [delimiters, blanks, next]

theorem next_digit {c : Char} (digit : c.isDigit = true) : whole.next c = some whole := by
  simp [next, digit]

end NumberPart

namespace Lexer

/-- A character that starts a number starts nothing else. -/
theorem start_of_first {c : Char} {p : NumberPart} (starts : NumberPart.first c = some p)
    (done : List Token) : start done c = some (number done p [c]) := by
  unfold start
  split
  case h_15 => rw [starts, Option.map_some]
  all_goals exact absurd starts (by simp [NumberPart.first, NumberPart.next])

theorem run_after {p q : NumberPart} {chars : List Char} (reads : p.after chars = some q)
    (done : List Token) (read rest : List Char) :
    (number done p read).run (chars ++ rest) =
      (number done q (chars.reverse ++ read)).run rest := by
  induction chars generalizing p read with
  | nil =>
    obtain rfl := Option.some.inj reads
    rfl
  | cons c chars ih =>
    obtain ⟨between, moves, later⟩ := Option.bind_eq_some_iff.mp reads
    have one : (number done p read).step c = some (number done between (c :: read)) := by
      simp only [step, moves]
    rw [List.cons_append, run_cons_of_step one, ih later, List.reverse_cons, List.append_assoc,
      List.singleton_append]

/-- A number ends at the end of the text or before a delimiter. -/
theorem run_number_end {p : NumberPart} (complete : p.complete = true) {chars : List Char}
    (delimited : ∀ c ∈ chars.head?, c ∈ NumberPart.delimiters) (done : List Token)
    (read : List Char) :
    (number done p read).run chars = (between (numberToken read :: done)).run chars := by
  cases chars with
  | nil => exact if_pos complete
  | cons c chars =>
    -- `c` is read again, now as the start of what follows
    have stops := p.next_delimiter c (delimited c rfl)
    have same : (number done p read).step c = (between (numberToken read :: done)).step c := by
      simp only [step, stops, complete, if_true]
    rw [run_cons, run_cons, same]

theorem run_number {lexeme : String} (writes : NumberPart.Writes lexeme.toList) {rest : List Char}
    (delimited : ∀ c ∈ rest.head?, c ∈ NumberPart.delimiters) (done : List Token) :
    (between done).run (lexeme.toList ++ rest) = (between (.num lexeme :: done)).run rest := by
  obtain ⟨c, chars, p, q, spelled, starts, reads, complete⟩ := writes
  have token : numberToken (chars.reverse ++ [c]) = .num lexeme := by
    rw [numberToken, ← List.reverse_cons, List.reverse_reverse, ← spelled, String.ofList_toList]
  have moves : (between done).step c = some (number done p [c]) := start_of_first starts done
  rw [spelled, List.cons_append, run_cons_of_step moves, run_after reads,
    run_number_end complete delimited, token]

end Lexer

theorem isDigit_toDigits (n : Nat) : ∀ c ∈ Nat.toDigits 10 n, c.isDigit = true :=
  fun _ member => Nat.isDigit_of_mem_toDigits (by decide) (by decide) member

/-- The digits of a positive number start with no zero. -/
theorem exists_after_toDigits {n : Nat} (positive : 0 < n) :
    ∃ c rest, Nat.toDigits 10 n = c :: rest ∧ NumberPart.first c = some .whole ∧
      NumberPart.whole.after rest = some .whole := by
  -- the first digit is that of `n / 10`, whose digits come before the last one
  induction n using Nat.strongRecOn with
  | ind n ih =>
    by_cases small : n < 10
    · refine ⟨n.digitChar, [], Nat.toDigits_of_lt_base small, ?_, rfl⟩
      have nonzero : n ≠ 0 := by omega
      simp [NumberPart.first, NumberPart.next, small, nonzero]
    · obtain ⟨c, rest, front, first, others⟩ := ih (n / 10) (by omega) (by omega)
      refine ⟨c, rest ++ [(n % 10).digitChar], ?_, first, ?_⟩
      · rw [Nat.toDigits_of_base_le (by decide) (by omega), front, List.cons_append]
      · have last : (n % 10).digitChar.isDigit = true := by
          simp only [Nat.isDigit_digitChar, decide_eq_true_eq]
          omega
        rw [NumberPart.after_append, others]
        exact congrArg (· >>= some) (NumberPart.next_digit last)

/-- The digits of a natural number are a number. -/
theorem writes_toDigits (n : Nat) : NumberPart.Writes (Nat.toDigits 10 n) := by
  rcases Nat.eq_zero_or_pos n with rfl | positive
  · exact ⟨'0', [], .zero, .zero, rfl, rfl, rfl, rfl⟩
  · obtain ⟨c, rest, spelled, first, others⟩ := exists_after_toDigits positive
    exact ⟨c, rest, .whole, .whole, spelled, first, others, rfl⟩

/-! ## Texts -/

/-- Only numbers can be written so that they are not read back. -/
def Token.Legible : Token → Prop
  | num lexeme => NumberPart.Writes lexeme.toList
  | _ => True

/-- Whether a token is a value by itself. The other tokens are marks. -/
def Token.isScalar : Token → Bool
  | null | bool _ | num _ | str _ => true
  | _ => false

/-- No scalar follows another one. -/
def Separated (tokens : List Token) : Prop :=
  tokens.IsChain fun t next => t.isScalar = true → next.isScalar = false

/-- A text that consists of the given tokens, with any blanks around them. -/
inductive Spaced : List Token → List Char → Prop
  | nil : Spaced [] []
  | blank {tokens : List Token} {chars : List Char} {c : Char} (blank : c ∈ blanks)
      (rest : Spaced tokens chars) : Spaced tokens (c :: chars)
  | token {tokens : List Token} {chars : List Char} (t : Token)
      (rest : Spaced tokens chars) : Spaced (t :: tokens) (t.chars ++ chars)

namespace Spaced

variable {tokens : List Token} {chars : List Char}

/-- Tokens may be written without blanks. -/
theorem compact (tokens : List Token) : Spaced tokens (tokens.flatMap Token.chars) := by
  induction tokens with
  | nil => exact nil
  | cons t tokens ih => exact token t ih

/-- A text that does not start with a scalar cannot continue a number. -/
theorem delimited (spaced : Spaced tokens chars)
    (mark : ∀ t ∈ tokens.head?, t.isScalar = false) :
    ∀ c ∈ chars.head?, c ∈ NumberPart.delimiters := by
  intro c first
  cases spaced with
  | nil => cases first
  | blank blank _ =>
    obtain rfl := Option.some.inj first
    exact List.mem_append_left _ blank
  | token t _ =>
    have notScalar := mark t rfl
    cases t
    case null | bool | num | str => cases notScalar
    all_goals
      obtain rfl := Option.some.inj first
      decide

end Spaced

namespace Lexer

theorem run_blank {c : Char} (blank : c ∈ blanks) (done : List Token) (rest : List Char) :
    (between done).run (c :: rest) = (between done).run rest := by
  simp only [blanks, List.mem_cons, List.not_mem_nil, or_false] at blank
  rcases blank with rfl | rfl | rfl | rfl <;> rfl

/-- A token is read where it ends, and a number before a delimiter. -/
theorem run_token {t : Token} (legible : t.Legible) {rest : List Char}
    (delimited : t.isScalar = true → ∀ c ∈ rest.head?, c ∈ NumberPart.delimiters)
    (done : List Token) :
    (between done).run (t.chars ++ rest) = (between (t :: done)).run rest := by
  cases t with
  | num lexeme => exact run_number legible (delimited rfl) done
  | str text => exact run_literal done text rest
  | bool b => cases b <;> rfl
  | _ => rfl

theorem run_spaced {tokens : List Token} {chars : List Char} (spaced : Spaced tokens chars)
    (legible : ∀ t ∈ tokens, t.Legible) (separated : Separated tokens) (done : List Token) :
    (between done).run chars = some (tokens.reverse ++ done) := by
  induction spaced generalizing done with
  | nil => rfl
  | blank blank _ ih => rw [run_blank blank, ih legible separated]
  | token t rest ih =>
    obtain ⟨next, others⟩ := List.isChain_cons.mp separated
    -- after a scalar there is a mark, so a number ends where it should
    have delimited := fun scalar : t.isScalar = true =>
      rest.delimited fun later first => next later first scalar
    rw [run_token (legible t List.mem_cons_self) delimited,
      ih (fun later member => legible later (List.mem_cons_of_mem _ member)) others,
      List.reverse_cons, List.append_assoc, List.singleton_append]

end Lexer

/-- A text is read as the tokens that it consists of. -/
theorem lex_of_spaced {tokens : List Token} {chars : List Char} (spaced : Spaced tokens chars)
    (legible : ∀ t ∈ tokens, t.Legible) (separated : Separated tokens) :
    lex chars = some tokens := by
  have all := Lexer.run_spaced spaced legible separated []
  obtain ⟨final, read, ends⟩ := Option.bind_eq_some_iff.mp all
  simp [lex, read, ends]

end BranchPrediction.Json
