import BranchPrediction.Json.Number
import BranchPrediction.Proofs.Decimal.Shortest
import BranchPrediction.Proofs.Json.RoundTrip
/-!
# Doubles are written as numbers near them

A number is written as digits, which may have a point among them and a power of ten
after them. Its value is that of all the digits, with as many places taken away as come
after the point. Where a double is laid out, the point is moved and zeros are added, and
each of the ways to do so keeps the value of the digits that were found.

## Main definitions

* `Json.Parts`: a written number without its sign, taken apart
* `Json.Spells`: how a value may be written
* `Json.ShowsDouble`: a number that is near a double

## Main results

* `Json.Parts.WellFormed.writes`: parts of digits are a number
* `Json.spells_layout`: digits that are laid out keep their value
* `Json.exists_ofFloat`, `Json.legible_ofFloat`: doubles
-/

namespace BranchPrediction.Json

open Decimal

/-! ## Written numbers -/

/-- A written number without its sign. -/
structure Parts where
  whole : List Char
  /-- The digits after the point; without such digits there is no point. -/
  fraction : List Char
  /-- The power of ten; it is not written if it is zero. -/
  power : Int

namespace Parts

/-- How the fraction is written. -/
def places (p : Parts) : List Char :=
  if p.fraction = [] then [] else '.' :: p.fraction

/-- How the power of ten is written. -/
def scaling (p : Parts) : List Char :=
  if p.power = 0 then [] else 'e' :: (toString p.power).toList

def chars (p : Parts) : List Char :=
  p.whole ++ (p.places ++ p.scaling)

/-- The value of all digits, with the point taken into account. -/
def value (p : Parts) : ℚ :=
  Nat.ofDigitChars 10 (p.whole ++ p.fraction) 0 * 10 ^ (p.power - p.fraction.length)

/-- The parts are digits, and the first of several digits before the point is no zero. -/
structure WellFormed (p : Parts) : Prop where
  whole : p.whole = ['0'] ∨ ∃ c rest, p.whole = c :: rest ∧ c ≠ '0'
  digits : ∀ c ∈ p.whole ++ p.fraction, c.isDigit = true

end Parts

namespace NumberPart

/-- Digits may be followed by more of them. -/
theorem after_digits {p : NumberPart} (stays : ∀ c : Char, c.isDigit = true → p.next c = some p)
    {chars : List Char} (digits : ∀ c ∈ chars, c.isDigit = true) : p.after chars = some p := by
  induction chars with
  | nil => rfl
  | cons c chars ih =>
    obtain ⟨first, others⟩ := List.forall_mem_cons.mp digits
    rw [after, List.foldlM_cons, stays c first]
    exact ih others

/-- Where digits are awaited they may stand. -/
theorem after_first_digits {p q : NumberPart}
    (starts : ∀ c : Char, c.isDigit = true → p.next c = some q)
    (stays : ∀ c : Char, c.isDigit = true → q.next c = some q) {chars : List Char}
    (nonempty : chars ≠ []) (digits : ∀ c ∈ chars, c.isDigit = true) :
    p.after chars = some q := by
  obtain ⟨c, rest, rfl⟩ := List.exists_cons_of_ne_nil nonempty
  obtain ⟨first, others⟩ := List.forall_mem_cons.mp digits
  rw [after, List.foldlM_cons, starts c first]
  exact after_digits stays others

theorem after_cons {p q : NumberPart} {c : Char} (moves : p.next c = some q) (rest : List Char) :
    p.after (c :: rest) = q.after rest := by
  rw [after, List.foldlM_cons, moves]
  rfl

/-- The digits of a power of ten may have a sign. -/
theorem after_power (power : Int) : mark.after (toString power).toList = some exponent := by
  have digits (n : Nat) : ∀ c ∈ n.repr.toList, c.isDigit = true := by
    rw [Nat.toList_repr]
    exact isDigit_toDigits n
  have some (n : Nat) : n.repr.toList ≠ [] := by
    rw [Nat.toList_repr]
    exact Nat.toDigits_ne_nil
  have ends (c : Char) (digit : c.isDigit = true) : exponent.next c = .some exponent := by
    simp [next, digit]
  rw [Int.toString_eq_repr, Int.repr_eq_if]
  split
  · refine after_first_digits ?_ ends (some _) (digits _)
    exact fun c digit => by simp [next, digit]
  · rw [String.toList_append]
    change mark.after ('-' :: _) = _
    rw [after_cons (q := sign) rfl]
    refine after_first_digits ?_ ends (some _) (digits _)
    exact fun c digit => by simp [next, digit]

/-- A point may follow these. -/
def InWhole (p : NumberPart) : Prop :=
  p = zero ∨ p = whole

/-- A power of ten may follow these, and a number may end there. -/
def InDigits (p : NumberPart) : Prop :=
  p.InWhole ∨ p = fraction

variable {parts : Parts}

theorem after_whole (formed : parts.WellFormed) :
    ∃ p, minus.after parts.whole = some p ∧ p.InWhole := by
  rcases formed.whole with single | ⟨c, rest, spelled, nonzero⟩
  · rw [single]
    exact ⟨zero, rfl, .inl rfl⟩
  · have digits := (List.forall_mem_append.mp formed.digits).1
    rw [spelled] at digits ⊢
    obtain ⟨first, others⟩ := List.forall_mem_cons.mp digits
    have moves : minus.next c = some whole := by simp [next, nonzero, first]
    exact ⟨whole, (after_cons moves rest).trans (after_digits (fun _ => next_digit) others), .inr rfl⟩

theorem InWhole.after_places {p : NumberPart} (here : p.InWhole) (formed : parts.WellFormed) :
    ∃ q, p.after parts.places = some q ∧ q.InDigits := by
  unfold Parts.places
  split
  · exact ⟨p, rfl, .inl here⟩
  · next nonempty =>
    have moves : p.next '.' = some point := by rcases here with rfl | rfl <;> rfl
    refine ⟨fraction, (after_cons moves _).trans ?_, .inr rfl⟩
    have digits := (List.forall_mem_append.mp formed.digits).2
    refine after_first_digits ?_ ?_ nonempty digits <;>
      exact fun c digit => by simp [next, digit]

theorem InDigits.after_scaling {p : NumberPart} (here : p.InDigits) (parts : Parts) :
    ∃ q, p.after parts.scaling = some q ∧ q.complete = true := by
  unfold Parts.scaling
  split
  · exact ⟨p, rfl, by rcases here with (rfl | rfl) | rfl <;> rfl⟩
  · have moves : p.next 'e' = some mark := by rcases here with (rfl | rfl) | rfl <;> rfl
    exact ⟨exponent, (after_cons moves _).trans (after_power _), rfl⟩

/-- The parts are read one after the other. -/
theorem after_chars (formed : parts.WellFormed) :
    ∃ q, minus.after parts.chars = some q ∧ q.complete = true := by
  obtain ⟨p, wholeRead, here⟩ := after_whole formed
  obtain ⟨q, placesRead, here⟩ := here.after_places formed
  obtain ⟨r, scalingRead, complete⟩ := here.after_scaling parts
  refine ⟨r, ?_, complete⟩
  rw [Parts.chars, after_append, wholeRead]
  change p.after _ = _
  rw [after_append, placesRead]
  exact scalingRead

/-- What is read after a sign is also a number without the sign. -/
theorem writes_of_minus {chars : List Char} {q : NumberPart} (reads : minus.after chars = some q)
    (complete : q.complete = true) : Writes chars ∧ Writes ('-' :: chars) := by
  refine ⟨?_, '-', chars, minus, q, rfl, rfl, reads, complete⟩
  cases chars with
  | nil =>
    obtain rfl := Option.some.inj reads
    cases complete
  | cons c rest =>
    obtain ⟨p, moves, later⟩ := Option.bind_eq_some_iff.mp reads
    have noSign : c ≠ '-' := by
      rintro rfl
      cases moves
    exact ⟨c, rest, p, q, rfl, (if_neg noSign).trans moves, later, complete⟩

end NumberPart

/-- Parts of digits are a number, with a sign or without. -/
theorem Parts.WellFormed.writes {p : Parts} (formed : p.WellFormed) :
    NumberPart.Writes p.chars ∧ NumberPart.Writes ('-' :: p.chars) := by
  obtain ⟨q, reads, complete⟩ := NumberPart.after_chars formed
  exact NumberPart.writes_of_minus reads complete

/-! ## Laid out digits -/

/-- The first digit of a positive number is no zero. -/
theorem exists_cons_toDigits {n : Nat} (positive : 0 < n) :
    ∃ c rest, Nat.toDigits 10 n = c :: rest ∧ c ≠ '0' := by
  obtain ⟨c, rest, spelled, first, -⟩ := exists_after_toDigits positive
  refine ⟨c, rest, spelled, ?_⟩
  rintro rfl
  cases first

theorem isDigit_zeros (k : Nat) : ∀ c ∈ List.replicate k '0', c.isDigit = true := by
  intro c member
  rw [List.eq_of_mem_replicate member]
  rfl

/-- Zeros at the end of the digits are made up for by the power of ten. -/
theorem Parts.value_eq {p : Parts} {n : Nat} (zeros : Nat) {exponent : Int}
    (number : Nat.ofDigitChars 10 (p.whole ++ p.fraction) 0 = 10 ^ zeros * n)
    (power : p.power - p.fraction.length + zeros = exponent) : p.value = n * 10 ^ exponent := by
  rw [value, number, ← power, zpow_add₀ (by norm_num), zpow_natCast]
  push_cast
  ring

/-- Some well-formed parts are written in a given way and have a given value. -/
def Spells (chars : List Char) (q : ℚ) : Prop :=
  ∃ p : Parts, p.WellFormed ∧ p.chars = chars ∧ p.value = q

section Layouts

variable {n : Nat} {c : Char} {rest : List Char} {exponent : Int}
  (digits : ∀ d ∈ c :: rest, d.isDigit = true) (number : Nat.ofDigitChars 10 (c :: rest) 0 = n)
include digits number

/-- Zeros are added up to the point, and one after it. -/
theorem spells_zeros (nonzero : c ≠ '0') {k : Nat} (places : exponent = k) :
    Spells (c :: rest ++ List.replicate k '0' ++ ['.', '0']) (n * 10 ^ exponent) := by
  let zeros := List.replicate k '0'
  refine ⟨⟨c :: rest ++ zeros, ['0'], 0⟩, ⟨.inr ⟨c, rest ++ zeros, rfl, nonzero⟩, ?_⟩, ?_,
    Parts.value_eq (k + 1) ?_ ?_⟩
  · simp only [List.forall_mem_append]
    exact ⟨⟨digits, isDigit_zeros k⟩, isDigit_zeros 1⟩
  · simp [Parts.chars, Parts.places, Parts.scaling, zeros]
  · have all : c :: rest ++ zeros ++ ['0'] = c :: rest ++ List.replicate (k + 1) '0' := by
      rw [List.append_assoc, List.replicate_succ']
    rw [all, Nat.ofDigitChars_append, number, Nat.ofDigitChars_replicate_zero]
  · simp only [List.length_singleton]
    omega

/-- The point is among the digits. -/
theorem spells_point (nonzero : c ≠ '0') {point : Nat} (nonempty : 0 < point)
    (inside : point ≤ rest.length) (places : exponent = point - (rest.length + 1)) :
    Spells ((c :: rest).take point ++ '.' :: (c :: rest).drop point) (n * 10 ^ exponent) := by
  -- the digits are the same before and after the point is put among them
  have all := List.take_append_drop point (c :: rest)
  obtain ⟨before, rfl⟩ : ∃ k, point = k + 1 := ⟨point - 1, by omega⟩
  have some : (c :: rest).drop (before + 1) ≠ [] := by
    rw [List.drop_succ_cons, Ne, List.drop_eq_nil_iff]
    omega
  refine ⟨⟨(c :: rest).take (before + 1), (c :: rest).drop (before + 1), 0⟩,
    ⟨.inr ⟨c, rest.take before, rfl, nonzero⟩, ?_⟩, ?_, Parts.value_eq 0 ?_ ?_⟩
  · rw [all]
    exact digits
  · simp only [Parts.chars, Parts.places, Parts.scaling, if_neg some, if_pos, List.append_nil]
  · rw [all, number, pow_zero, Nat.one_mul]
  · simp only [List.drop_succ_cons, List.length_drop]
    omega

/-- The point is in front of the digits, or there are zeros between. -/
theorem spells_front {k : Nat} (places : exponent = -k - (rest.length + 1)) :
    Spells ('0' :: '.' :: List.replicate k '0' ++ c :: rest) (n * 10 ^ exponent) := by
  refine ⟨⟨['0'], List.replicate k '0' ++ c :: rest, 0⟩, ⟨.inl rfl, ?_⟩, ?_,
    Parts.value_eq 0 ?_ ?_⟩
  · simp only [List.forall_mem_append]
    exact ⟨isDigit_zeros 1, isDigit_zeros k, digits⟩
  · simp [Parts.chars, Parts.places, Parts.scaling]
  · have front : ['0'] ++ (List.replicate k '0' ++ c :: rest) =
        List.replicate (k + 1) '0' ++ c :: rest := by
      rw [List.replicate_succ]
      rfl
    rw [front, Nat.ofDigitChars_append, Nat.ofDigitChars_replicate_zero, Nat.mul_zero, number,
      pow_zero, Nat.one_mul]
  · simp only [List.length_append, List.length_replicate, List.length_cons]
    omega

/-- The point follows the first digit. -/
theorem spells_power (nonzero : c ≠ '0') {power : Int} (scaled : power ≠ 0)
    (places : exponent = power - rest.length) :
    Spells (c :: ((if rest = [] then [] else '.' :: rest) ++ 'e' :: (toString power).toList))
      (n * 10 ^ exponent) := by
  refine ⟨⟨[c], rest, power⟩, ⟨.inr ⟨c, [], rfl, nonzero⟩, digits⟩, ?_, Parts.value_eq 0 ?_ ?_⟩
  · simp only [Parts.chars, Parts.places, Parts.scaling, if_neg scaled, List.singleton_append]
  · rw [List.singleton_append, number, pow_zero, Nat.one_mul]
  · simp [places]

end Layouts

/-- Digits that are laid out keep their value. -/
theorem spells_layout {n : Nat} (positive : 0 < n) (exponent : Int) :
    Spells (layout (Nat.toDigits 10 n) exponent) (n * 10 ^ exponent) := by
  obtain ⟨c, rest, spelled, nonzero⟩ := exists_cons_toDigits positive
  have digits := isDigit_toDigits n
  have number : Nat.ofDigitChars 10 (Nat.toDigits 10 n) 0 = n := Nat.ofDigitChars_ten_toDigits
  rw [spelled] at digits number ⊢
  have size : (c :: rest).length = rest.length + 1 := List.length_cons
  -- the point goes where the exponent puts it, and a power is used if that is too far away
  unfold layout
  dsimp only
  rw [size]
  split
  case isTrue large => exact spells_zeros digits number nonzero (by omega)
  case isFalse notLarge =>
    split
    case isTrue inside => exact spells_point digits number nonzero (by omega) (by omega) (by omega)
    case isFalse notInside =>
      split
      case isTrue small => exact spells_front digits number (by omega)
      case isFalse notSmall =>
        have scaled : (rest.length + 1 : Nat) + exponent - 1 ≠ 0 := by omega
        have places : exponent = (rest.length + 1 : Nat) + exponent - 1 - rest.length := by omega
        have spells := spells_power digits number nonzero scaled places
        cases rest <;> exact spells

/-! ## Doubles -/

/-- A number that is written with the sign of a double, and whose distance from the double is
half the distance of the doubles at most. -/
def ShowsDouble (x : Float) (lexeme : String) : Prop :=
  ∃ chars q, Spells chars q ∧ |q - magnitude x| ≤ spacing x / 2 ∧
    lexeme = String.ofList (if negative x then '-' :: chars else chars)

theorem ShowsDouble.legible {x : Float} {lexeme : String} (shows : ShowsDouble x lexeme) :
    (num lexeme).Legible := by
  obtain ⟨_, _, ⟨p, formed, rfl, -⟩, -, rfl⟩ := shows
  refine legible_of_token rfl ?_
  rw [Token.Legible, String.toList_ofList]
  split
  · exact formed.writes.2
  · exact formed.writes.1

/-- A double is written as a number near it. -/
theorem exists_ofFloat (x : Float) : ∃ lexeme, ofFloat x = num lexeme ∧ ShowsDouble x lexeme := by
  have sign := Binary.negative_ofFloat x
  have value := Binary.value_ofFloat x
  have bit := Binary.two_zpow_exponent_ofFloat x
  have narrow := Binary.mantissa_ofFloat_lt x
  refine ⟨_, rfl, ?_⟩
  rw [ShowsDouble, ← sign]
  dsimp only
  generalize Binary.ofFloat x = b at *
  -- zero is no positive number, so there are no digits to be found for it
  by_cases zero : b.mantissa = 0
  · have nothing : Spells ['0', '.', '0'] 0 :=
      ⟨⟨['0'], ['0'], 0⟩, ⟨.inl rfl, isDigit_zeros 2⟩, rfl, by simp [Parts.value, Nat.ofDigitChars]⟩
    have same : magnitude x = 0 := by rw [← value, Binary.value, zero, Nat.cast_zero, zero_mul]
    refine ⟨['0', '.', '0'], 0, nothing, ?_, ?_⟩
    · rw [same, sub_zero, abs_zero, ← bit]
      positivity
    · rw [if_pos zero]
  · have positive := Nat.pos_of_ne_zero zero
    obtain ⟨some, near⟩ := shortest_near positive narrow
    rw [value, bit] at near
    refine ⟨_, _, spells_layout some (shortest b).2, near, ?_⟩
    rw [if_neg zero]

/-- Doubles are written so that they can be read. -/
theorem legible_ofFloat (x : Float) : (ofFloat x).Legible := by
  obtain ⟨lexeme, written, shows⟩ := exists_ofFloat x
  rw [written]
  exact shows.legible

end BranchPrediction.Json
