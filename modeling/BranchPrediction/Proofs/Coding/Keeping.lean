import Mathlib.Data.List.Nodup
import BranchPrediction.Coding.Basic
import BranchPrediction.Proofs.Json.RoundTrip
/-!
# Values that codings keep

A coding keeps a value if reading what was written for it gives it back. This is a
property of single values rather than of codings, because numbers are kept only
below the limit of their coding. It passes from parts to wholes: to values that may
be missing, to lists, and to records, whose fields are found by name in any order.

What is kept is kept in texts as well, since a text that consists of the tokens of
a legible value is read as this value.

## Main definitions

* `Coding.Keeps`: a value is written legibly and read back

## Main results

* `Json.fields?_ofMembers`: the fields of a record are found by their names
* `Coding.keeps_natBelow`, `Coding.keeps_names`, `Coding.keeps_list`: basic codings
* `Coding.Keeps.read?_of_spaced`, `Coding.Keeps.read?_write`: texts
-/

namespace BranchPrediction

/-! ## Numbers and records -/

namespace Json

theorem natural?_ofNat (n : Nat) : (ofNat n).natural? = some n := by
  have digits : (toString n).toList = Nat.toDigits 10 n := Nat.toList_repr
  have allDigits : (Nat.toDigits 10 n).all Char.isDigit = true :=
    List.all_eq_true.mpr (isDigit_toDigits n)
  simp only [natural?, ofNat, digits, allDigits, Nat.toDigits_ne_nil, ne_eq, not_false_eq_true,
    and_self, if_true, Nat.ofDigitChars_ten_toDigits]

variable {members : List (String × Json)}

theorem lookup_eq_none {key : String} (absent : key ∉ members.map Prod.fst) :
    members.lookup key = none := by
  refine List.lookup_eq_none_iff.mpr fun other inside => ?_
  have apart : key ≠ other.1 := fun same => absent (same ▸ List.mem_map.mpr ⟨other, inside, rfl⟩)
  simpa using apart

theorem lookup_cons_of_ne {key name : String} (apart : key ≠ name) (value : Json) :
    List.lookup key ((name, value) :: members) = members.lookup key := by
  rw [List.lookup_cons, beq_false_of_ne apart]

/-- Where no key is repeated, every member is found. -/
theorem lookup_of_mem_nodup (distinct : (members.map Prod.fst).Nodup) {member : String × Json}
    (inside : member ∈ members) : members.lookup member.1 = some member.2 := by
  induction members with
  | nil => cases inside
  | cons first members ih =>
    obtain ⟨absent, distinct⟩ := List.nodup_cons.mp distinct
    rcases List.mem_cons.mp inside with rfl | later
    · exact List.lookup_cons_self
    · have apart : member.1 ≠ first.1 := fun same =>
        absent (same ▸ List.mem_map.mpr ⟨member, later, rfl⟩)
      exact (lookup_cons_of_ne apart _).trans (ih distinct later)

/-- Where no key is repeated, a key has at most one member. -/
theorem filter_key_of_nodup (distinct : (members.map Prod.fst).Nodup) (key : String) :
    ((members.map fun m => (some m.1, m.2)).filter fun m => m.1 == some key) =
      ((members.lookup key).map fun value => (some key, value)).toList := by
  induction members with
  | nil => rfl
  | cons member members ih =>
    obtain ⟨name, value⟩ := member
    obtain ⟨absent, distinct⟩ := List.nodup_cons.mp distinct
    have others := ih distinct
    by_cases same : key = name
    · -- the key is here, so it is not among the others
      subst same
      rw [lookup_eq_none absent] at others
      simp [others]
    · have skipped : (some name == some key) = false := beq_false_of_ne fun eq =>
        same (Option.some.inj eq).symm
      rw [lookup_cons_of_ne same, ← others, List.map_cons, List.filter_cons, skipped]
      rfl

theorem member?_of_nodup (distinct : (members.map Prod.fst).Nodup) (key : String) :
    member? (members.map fun m => (some m.1, m.2)) key = some (members.lookup key) := by
  rw [member?, filter_key_of_nodup distinct]
  cases members.lookup key <;> rfl

/-- The fields of a record are found by their names, in whatever order they stand. -/
theorem fields?_ofMembers (distinct : (members.map Prod.fst).Nodup) (keys : List String) :
    (ofMembers members).fields? keys = some (keys.map fun key => List.lookup key members) := by
  have named : (members.map fun m => (some m.1, m.2)).all (fun m => m.1.isSome) = true := by
    simp
  have found : member? (members.map fun m => (some m.1, m.2)) =
      fun key => pure (List.lookup key members) :=
    funext (member?_of_nodup distinct)
  change (if _ then _ else _) = _
  rw [if_pos named, found, List.mapM_pure]
  rfl

/-- The fields of an array are its items, and the last ones may be missing. -/
theorem fields?_arr {items : List Json} {keys : List String} (few : items.length ≤ keys.length) :
    (arr items).fields? keys =
      some (items.map some ++ List.replicate (keys.length - items.length) none) :=
  if_pos few

/-- A record that is asked for all its fields gives their values. -/
theorem fields?_ofMembers_self (distinct : (members.map Prod.fst).Nodup) :
    (ofMembers members).fields? (members.map Prod.fst) = some (members.map fun m => some m.2) := by
  rw [fields?_ofMembers distinct, List.map_map]
  refine congrArg some (List.map_congr_left fun member inside => ?_)
  exact lookup_of_mem_nodup distinct inside

theorem legible_ofMembers (legible : ∀ m ∈ members, m.2.Legible) : (ofMembers members).Legible := by
  refine legible_obj fun named member => ?_
  obtain ⟨m, inside, rfl⟩ := List.mem_map.mp member
  exact legible m inside

end Json

/-! ## Codings -/

/-- What only one member of a list satisfies is found. -/
theorem find?_eq_some_of_unique {α : Type} {l : List α} {p : α → Bool} {a : α} (listed : a ∈ l)
    (holds : p a = true) (unique : ∀ b ∈ l, p b = true → b = a) : l.find? p = some a := by
  obtain ⟨b, found⟩ := Option.isSome_iff_exists.mp (List.find?_isSome.mpr ⟨a, listed, holds⟩)
  have same : b = a := unique b (List.mem_of_find?_eq_some found) (List.find?_some found)
  rw [found, same]

namespace Coding

variable {α : Type}

/-- A coding keeps a value if it writes the value legibly and reads it back. -/
structure Keeps (c : Coding α) (a : α) : Prop where
  legible : (c.encode a).Legible
  decode_encode : c.decode (c.encode a) = some a

namespace Keeps

variable {c : Coding α} {a : α}

/-- A text that consists of the tokens of a kept value is read as this value. -/
theorem read?_of_spaced (keeps : c.Keeps a) {text : String}
    (spaced : Json.Spaced (c.encode a).tokens text.toList) : c.read? text = some a := by
  rw [read?, Json.parse_of_spaced spaced keeps.legible, Option.bind_some, keeps.decode_encode]

/-- A kept value is read back from its compact text. -/
theorem read?_write (keeps : c.Keeps a) : c.read? (c.write a) = some a :=
  keeps.read?_of_spaced (Json.spaced_render _)

end Keeps

theorem keeps_bool (b : Bool) : bool.Keeps b where
  legible := Json.legible_of_token rfl trivial
  decode_encode := rfl

theorem keeps_natBelow {limit n : Nat} (small : n < limit) : (natBelow limit).Keeps n where
  legible := Json.legible_ofNat n
  decode_encode := by
    change (Json.natural? (.ofNat n)).filter _ = _
    rw [Json.natural?_ofNat, Option.filter_some, decide_eq_true small, if_pos rfl]

/-- The values of a finite type are kept if no two have the same name. Further
spellings do not matter. -/
theorem keeps_names {all : List α} {name : α → String} (aliases : List (String × α))
    (distinct : (all.map name).Nodup) {a : α} (listed : a ∈ all) :
    (names all name aliases).Keeps a where
  legible := Json.legible_of_token rfl trivial
  decode_encode := by
    have unique : ∀ b ∈ all, (name b == name a) = true → b = a := fun b other same =>
      List.inj_on_of_nodup_map distinct other listed (eq_of_beq same)
    change (all.find? fun b => name b == name a).or (aliases.lookup (name a)) = _
    rw [find?_eq_some_of_unique listed (beq_self_eq_true (name a)) unique, Option.some_or]

theorem decode_option_of_ne_null (c : Coding α) {j : Json} (notNull : j ≠ .null) :
    c.option.decode j = some <$> c.decode j := by
  cases j
  case null => exact absurd rfl notNull
  all_goals rfl

/-- A value that may be missing is kept if it is there and is not written like a
missing one. -/
theorem keeps_some {c : Coding α} {a : α} (keeps : c.Keeps a) (notNull : c.encode a ≠ .null) :
    c.option.Keeps (some a) where
  legible := keeps.legible
  decode_encode := by
    change c.option.decode (c.encode a) = _
    rw [decode_option_of_ne_null c notNull, keeps.decode_encode]
    rfl

theorem keeps_none (c : Coding α) : c.option.Keeps none where
  legible := Json.legible_of_token rfl trivial
  decode_encode := rfl

theorem decode_encode_list {c : Coding α} {as : List α} (keeps : ∀ a ∈ as, c.Keeps a) :
    (as.map c.encode).mapM c.decode = some as := by
  induction as with
  | nil => rfl
  | cons a as ih =>
    have first := (keeps a List.mem_cons_self).decode_encode
    have others := ih fun later member => keeps later (List.mem_cons_of_mem _ member)
    rw [List.map_cons, List.mapM_cons, first, others]
    rfl

/-- A list is kept if its members are. -/
theorem keeps_list {c : Coding α} {as : List α} (keeps : ∀ a ∈ as, c.Keeps a) :
    c.list.Keeps as where
  legible := by
    refine Json.legible_arr fun item member => ?_
    obtain ⟨a, inside, rfl⟩ := List.mem_map.mp member
    exact (keeps a inside).legible
  decode_encode := decode_encode_list keeps

end Coding

end BranchPrediction
