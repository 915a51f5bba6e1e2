import BranchPrediction.Json.Parser
import BranchPrediction.Proofs.Json.Lexing
/-!
# Written values are read back

The tokens of a value, whatever follows them, bring the reader to where the value
is complete in the frames that were open before. That is what has to be said about
a value for the induction over values: the tokens of an item are followed by those
of its neighbours and read inside one frame more. Nothing is said about the depth
of a value, since the frames are kept as data.

Between two scalars of a value there is a mark, so its text shows where every
number ends. A text that consists of the tokens of a value is therefore read as
this value, with blanks or without.

## Main definitions

* `Json.Legible`: a value whose numbers can be read

## Main results

* `Json.foldlM_tokens`: the tokens of a value complete it
* `Json.separated_tokens`: scalars of a value are kept apart
* `Json.parse_of_spaced`, `Json.parse_render`: a written value is read back
-/

namespace BranchPrediction.Json

/-! ## Reading tokens -/

namespace Reading

variable {r next : Reading} {t : Token}

theorem foldlM_cons_of_step (moves : r.step t = some next) (rest : List Token) :
    (t :: rest).foldlM step r = rest.foldlM step next := by
  rw [List.foldlM_cons, moves]
  rfl

/-- After a key and a colon its value is awaited. -/
theorem foldlM_key (name : Option String) (before : List (Option String × Json))
    (rest : List Token) (outer : List Frame) :
    (.str name :: .colon :: rest).foldlM step (key before outer) =
      rest.foldlM step (value (.member before name :: outer)) :=
  rfl

/-- An array starts with an item like any other, unless it ends at once. -/
theorem step_firstItem (outer : List Frame) (notEnd : t ≠ .rightBracket) :
    (firstItem outer).step t = (value (.items [] :: outer)).step t := by
  cases t
  case rightBracket => exact absurd rfl notEnd
  all_goals rfl

end Reading

theorem tokens_arr_append (items : List Json) (rest : List Token) :
    (arr items).tokens ++ rest = .leftBracket :: (itemTokens items ++ .rightBracket :: rest) := by
  simp [tokens]

theorem tokens_obj_append (members : List (Option String × Json)) (rest : List Token) :
    (obj members).tokens ++ rest = .leftBrace :: (memberTokens members ++ .rightBrace :: rest) := by
  simp [tokens]

/-- A value does not start with the end of something. -/
theorem head_tokens_ne (j : Json) : ∃ t rest, j.tokens = t :: rest ∧ t ≠ .rightBracket := by
  cases j
  all_goals
    rw [tokens]
    exact ⟨_, _, rfl, nofun⟩

/-- Items that start an array are read like later ones. -/
theorem foldlM_firstItem (item : Json) (items : List Json) (rest : List Token)
    (outer : List Frame) :
    (itemTokens (item :: items) ++ rest).foldlM Reading.step (.firstItem outer) =
      (itemTokens (item :: items) ++ rest).foldlM Reading.step (.value (.items [] :: outer)) := by
  obtain ⟨t, later, first, notEnd⟩ := item.head_tokens_ne
  have starts : ∃ later, itemTokens (item :: items) = t :: later := by
    cases items <;> simp [itemTokens, first]
  obtain ⟨later, starts⟩ := starts
  rw [starts, List.cons_append, List.foldlM_cons, List.foldlM_cons,
    Reading.step_firstItem outer notEnd]

/-- Members that start an object are read like later ones. -/
theorem foldlM_firstKey (member : Option String × Json) (members : List (Option String × Json))
    (rest : List Token) (outer : List Frame) :
    (memberTokens (member :: members) ++ rest).foldlM Reading.step (.firstKey outer) =
      (memberTokens (member :: members) ++ rest).foldlM Reading.step (.key [] outer) := by
  cases members <;> rfl

-- The tokens of a value are followed by those of what it stands in, so each of these
-- is about any continuation. The recursion is that of `tokens`.
mutual

/-- The tokens of a value complete it. -/
theorem foldlM_tokens (j : Json) (rest : List Token) (outer : List Frame) :
    (j.tokens ++ rest).foldlM Reading.step (.value outer) =
      rest.foldlM Reading.step (.complete j outer) := by
  match j with
  | null | bool _ | num _ | str _ => rfl
  | arr [] => rfl
  | obj [] => rfl
  | arr (item :: items) =>
    rw [tokens_arr_append, Reading.foldlM_cons_of_step rfl, foldlM_firstItem,
      foldlM_itemTokens (item :: items) nofun [] rest outer]
    rfl
  | obj (member :: members) =>
    rw [tokens_obj_append, Reading.foldlM_cons_of_step rfl, foldlM_firstKey,
      foldlM_memberTokens (member :: members) nofun [] rest outer]
    rfl

/-- The tokens of items, up to the end of their array, complete the array. -/
theorem foldlM_itemTokens (items : List Json) (nonempty : items ≠ []) (before : List Json)
    (rest : List Token) (outer : List Frame) :
    (itemTokens items ++ .rightBracket :: rest).foldlM Reading.step
        (.value (.items before :: outer)) =
      rest.foldlM Reading.step (.complete (.arr (before.reverse ++ items)) outer) := by
  match items with
  | [item] =>
    rw [itemTokens, foldlM_tokens item, Reading.complete, Reading.foldlM_cons_of_step rfl,
      List.reverse_cons]
  | item :: next :: items =>
    let others := itemTokens (next :: items) ++ .rightBracket :: rest
    calc
      _ = (item.tokens ++ .comma :: others).foldlM Reading.step
            (.value (.items before :: outer)) := by
        rw [itemTokens, List.append_assoc, List.cons_append]
      _ = (.comma :: others).foldlM Reading.step (.afterItem (item :: before) outer) :=
        foldlM_tokens item _ _
      _ = others.foldlM Reading.step (.value (.items (item :: before) :: outer)) :=
        Reading.foldlM_cons_of_step rfl others
      _ = _ := by
        rw [foldlM_itemTokens (next :: items) nofun, List.reverse_cons, List.append_assoc,
          List.singleton_append]

/-- The tokens of members, up to the end of their object, complete the object. -/
theorem foldlM_memberTokens (members : List (Option String × Json)) (nonempty : members ≠ [])
    (before : List (Option String × Json)) (rest : List Token) (outer : List Frame) :
    (memberTokens members ++ .rightBrace :: rest).foldlM Reading.step (.key before outer) =
      rest.foldlM Reading.step (.complete (.obj (before.reverse ++ members)) outer) := by
  match members with
  | [(key, value)] =>
    rw [memberTokens, List.cons_append, List.cons_append, Reading.foldlM_key, foldlM_tokens value,
      Reading.complete, Reading.foldlM_cons_of_step rfl, List.reverse_cons]
  | (key, value) :: next :: members =>
    let others := memberTokens (next :: members) ++ .rightBrace :: rest
    calc
      _ = (.str key :: .colon :: (value.tokens ++ .comma :: others)).foldlM Reading.step
            (.key before outer) := by
        rw [memberTokens, List.append_assoc, List.cons_append, List.cons_append, List.cons_append]
      _ = (value.tokens ++ .comma :: others).foldlM Reading.step
            (.value (.member before key :: outer)) :=
        Reading.foldlM_key key before _ outer
      _ = (.comma :: others).foldlM Reading.step (.afterMember ((key, value) :: before) outer) :=
        foldlM_tokens value _ _
      _ = others.foldlM Reading.step (.key ((key, value) :: before) outer) :=
        Reading.foldlM_cons_of_step rfl others
      _ = _ := by
        rw [foldlM_memberTokens (next :: members) nofun, List.reverse_cons, List.append_assoc,
          List.singleton_append]

end

/-- The tokens of a value are read as this value. -/
theorem ofTokens_tokens (j : Json) : ofTokens j.tokens = some j := by
  have reads := foldlM_tokens j [] []
  rw [List.append_nil] at reads
  rw [ofTokens, reads]
  rfl

/-! ## Writing tokens -/

namespace Separated

variable {front back : List Token} {mark : Token}

theorem cons_mark (notScalar : mark.isScalar = false) (separated : Separated back) :
    Separated (mark :: back) := by
  refine List.isChain_cons.mpr ⟨?_, separated⟩
  intro next _ scalar
  rw [notScalar] at scalar
  cases scalar

/-- A mark may stand between any tokens. -/
theorem append_mark (first : Separated front) (notScalar : mark.isScalar = false)
    (second : Separated back) : Separated (front ++ mark :: back) := by
  refine List.isChain_append.mpr ⟨first, second.cons_mark notScalar, ?_⟩
  intro last _ next isMark _
  obtain rfl := Option.some.inj isMark
  exact notScalar

end Separated

/-- A key and a value have a colon between them. -/
theorem separated_member (key : Option String) {value : List Token} (separated : Separated value) :
    Separated (.str key :: .colon :: value) :=
  have alone : Separated [.str key] := .singleton _
  alone.append_mark rfl separated

mutual

/-- Scalars of a value are kept apart. -/
theorem separated_tokens (j : Json) : Separated j.tokens := by
  match j with
  | null | bool _ | num _ | str _ => exact .singleton _
  | arr items => exact ((separated_itemTokens items).append_mark rfl .nil).cons_mark rfl
  | obj members => exact ((separated_memberTokens members).append_mark rfl .nil).cons_mark rfl

theorem separated_itemTokens (items : List Json) : Separated (itemTokens items) := by
  match items with
  | [] => exact .nil
  | [item] => exact separated_tokens item
  | item :: next :: items =>
    exact (separated_tokens item).append_mark rfl (separated_itemTokens (next :: items))

theorem separated_memberTokens (members : List (Option String × Json)) :
    Separated (memberTokens members) := by
  match members with
  | [] => exact .nil
  | [(key, value)] => exact separated_member key (separated_tokens value)
  | (key, value) :: next :: members =>
    have others := separated_memberTokens (next :: members)
    exact separated_member key ((separated_tokens value).append_mark rfl others)

end

/-! ## Legible values -/

/-- A value whose numbers can be read. -/
def Legible (j : Json) : Prop :=
  ∀ t ∈ j.tokens, t.Legible

theorem legible_of_token {j : Json} {t : Token} (single : j.tokens = [t]) (legible : t.Legible) :
    j.Legible := by
  rw [Legible, single]
  exact List.forall_mem_singleton.mpr legible

theorem legible_ofNat (n : Nat) : (ofNat n).Legible := by
  have digits : (toString n).toList = Nat.toDigits 10 n := Nat.toList_repr
  have writes : NumberPart.Writes (toString n).toList := digits ▸ writes_toDigits n
  exact legible_of_token rfl writes

theorem legible_itemTokens {items : List Json} (legible : ∀ item ∈ items, item.Legible) :
    ∀ t ∈ itemTokens items, t.Legible := by
  match items with
  | [] => exact nofun
  | [item] => exact legible item List.mem_cons_self
  | item :: next :: items =>
    obtain ⟨first, others⟩ := List.forall_mem_cons.mp legible
    rw [itemTokens, List.forall_mem_append, List.forall_mem_cons]
    exact ⟨first, trivial, legible_itemTokens others⟩

theorem legible_memberTokens {members : List (Option String × Json)}
    (legible : ∀ member ∈ members, member.2.Legible) :
    ∀ t ∈ memberTokens members, t.Legible := by
  match members with
  | [] => exact nofun
  | [(key, value)] =>
    rw [memberTokens, List.forall_mem_cons, List.forall_mem_cons]
    exact ⟨trivial, trivial, legible (key, value) List.mem_cons_self⟩
  | (key, value) :: next :: members =>
    obtain ⟨first, others⟩ := List.forall_mem_cons.mp legible
    rw [memberTokens, List.forall_mem_append, List.forall_mem_cons, List.forall_mem_cons,
      List.forall_mem_cons]
    exact ⟨⟨trivial, trivial, first⟩, trivial, legible_memberTokens others⟩

theorem legible_arr {items : List Json} (legible : ∀ item ∈ items, item.Legible) :
    (arr items).Legible := by
  rw [Legible, tokens, List.forall_mem_append, List.forall_mem_cons, List.forall_mem_singleton]
  exact ⟨⟨trivial, legible_itemTokens legible⟩, trivial⟩

theorem legible_obj {members : List (Option String × Json)}
    (legible : ∀ member ∈ members, member.2.Legible) : (obj members).Legible := by
  rw [Legible, tokens, List.forall_mem_append, List.forall_mem_cons, List.forall_mem_singleton]
  exact ⟨⟨trivial, legible_memberTokens legible⟩, trivial⟩

/-! ## Texts -/

/-- A text that consists of the tokens of a value is read as this value. -/
theorem parse_of_spaced {j : Json} {text : String} (spaced : Spaced j.tokens text.toList)
    (legible : j.Legible) : parse text = some j := by
  rw [parse, lex_of_spaced spaced legible j.separated_tokens]
  exact j.ofTokens_tokens

/-- The compact text of a value consists of its tokens. -/
theorem spaced_render (j : Json) : Spaced j.tokens j.render.toList := by
  rw [render, String.toList_ofList]
  exact Spaced.compact j.tokens

/-- A written value is read back. -/
theorem parse_render {j : Json} (legible : j.Legible) : parse j.render = some j :=
  parse_of_spaced j.spaced_render legible

end BranchPrediction.Json
