import BranchPrediction.Proofs.Coding.Keeping
import BranchPrediction.Storage.Loading
/-!
# Configurations are read back

A text may give any of the ten fields of a configuration: by name in any order, or
by position up to some field. It is read as the configuration that has the given
values for these fields and the default values for all others, and is then accepted
or rejected as that configuration is.

Reading assigns one field after the other. What counts is which fields have been
assigned and not in which order, since every field is read back as it was written
and no assignment touches another field.

## Main definitions

* `Config.Fits`: sizes of 64 bits and widths of 32
* `Config.overlay`: the values of one configuration on some fields, those of another
  one elsewhere
* `Config.ReadFrom`: every text of a value is read as a configuration

## Main results

* `Config.fieldKept`: a written field is read back and no other field is touched
* `Config.fields?_members`, `Config.fields?_values`: what objects and arrays give
* `Config.foldlM_assign?`: what assigning the given fields one by one leads to
* `Config.decode_of_fields?`: given fields are read and others have their defaults
* `Config.readFrom_of_fits`: the law of the reader
-/

namespace BranchPrediction

/-! ## Choices by name -/

namespace Coding

theorem keeps_predictorKind (k : PredictorKind) : predictorKind.Keeps k :=
  keeps_names _ (by decide) (by cases k <;> decide)

theorem keeps_targetCacheKind (k : TargetCacheKind) : targetCacheKind.Keeps k :=
  keeps_names _ (by decide) (by cases k <;> decide)

theorem keeps_shiftOrder (o : ShiftOrder) : shiftOrder.Keeps o :=
  keeps_names _ (by decide) (by cases o <;> decide)

theorem keeps_historyUpdate (o : Option ShiftOrder) : shiftOrder.option.Keeps o := by
  cases o with
  | none => exact keeps_none _
  | some o => exact keeps_some (keeps_shiftOrder o) nofun

end Coding

namespace Config

/-- Sizes are 64-bit numbers and widths 32-bit ones. -/
structure Fits (c : Config) : Prop where
  entries : c.entries < 2 ^ 64
  historyLength : c.historyLength < 2 ^ 64
  weightBits : c.weightBits < 2 ^ 32
  counterBits : c.counterBits < 2 ^ 32
  phtIndexBits : c.phtIndexBits < 2 ^ 32
  btbEntries : c.btbEntries < 2 ^ 64

/-! ## Some fields from another configuration -/

/-- The values of `c` on the given fields and those of `d` on all others. -/
def overlay (d c : Config) (fs : List Field) : Config where
  kind := if .kind ∈ fs then c.kind else d.kind
  entries := if .entries ∈ fs then c.entries else d.entries
  historyLength := if .historyLength ∈ fs then c.historyLength else d.historyLength
  weightBits := if .weightBits ∈ fs then c.weightBits else d.weightBits
  counterBits := if .counterBits ∈ fs then c.counterBits else d.counterBits
  phtIndexBits := if .phtIndexBits ∈ fs then c.phtIndexBits else d.phtIndexBits
  useHashing := if .useHashing ∈ fs then c.useHashing else d.useHashing
  btbEntries := if .btbEntries ∈ fs then c.btbEntries else d.btbEntries
  targetCache := if .targetCache ∈ fs then c.targetCache else d.targetCache
  historyUpdate := if .historyUpdate ∈ fs then c.historyUpdate else d.historyUpdate

theorem overlay_nil (d c : Config) : d.overlay c [] = d := by
  simp [overlay]

theorem overlay_all (d c : Config) : d.overlay c Field.all = c := by
  simp [overlay, Field.all]

/-- The order of the fields does not matter. -/
theorem overlay_congr (d c : Config) {fs gs : List Field} (same : ∀ f, f ∈ fs ↔ f ∈ gs) :
    d.overlay c fs = d.overlay c gs := by
  simp only [overlay, same]

theorem overlay_overlay (d c : Config) (fs gs : List Field) :
    (d.overlay c fs).overlay c gs = d.overlay c (fs ++ gs) := by
  have pick {α : Type} (f : Field) (new old : α) :
      (if f ∈ gs then new else if f ∈ fs then new else old) =
        if f ∈ fs ++ gs then new else old := by
    by_cases first : f ∈ fs <;> by_cases second : f ∈ gs <;> simp [first, second]
  simp only [overlay, pick]

variable {c : Config}

/-! ## Single fields -/

/-- A written field can be read, and reading it replaces this field only. -/
structure FieldKept (c : Config) (f : Field) : Prop where
  legible : (c.fieldValue f).Legible
  assign : ∀ d : Config, d.assign f (c.fieldValue f) = some (d.overlay c [f])

theorem FieldKept.of_keeps {α : Type} {coding : Coding α} {a : α} (keeps : coding.Keeps a)
    {f : Field} {set : Config → α → Config} (written : c.fieldValue f = coding.encode a)
    (assigns : ∀ d j, d.assign f j = set d <$> coding.decode j)
    (sets : ∀ d, set d a = d.overlay c [f]) : c.FieldKept f where
  legible := written ▸ keeps.legible
  assign d := by
    rw [assigns, written, keeps.decode_encode, ← sets d]
    rfl

/-- A written field is read back, and no other field is touched. -/
theorem fieldKept (fits : c.Fits) (f : Field) : c.FieldKept f := by
  -- a field differs from the others in its coding only
  cases f with
  | kind => exact .of_keeps (Coding.keeps_predictorKind c.kind) rfl (fun _ _ => rfl) fun _ => rfl
  | entries =>
    exact .of_keeps (Coding.keeps_natBelow fits.entries) rfl (fun _ _ => rfl) fun _ => rfl
  | historyLength =>
    exact .of_keeps (Coding.keeps_natBelow fits.historyLength) rfl (fun _ _ => rfl) fun _ => rfl
  | weightBits =>
    exact .of_keeps (Coding.keeps_natBelow fits.weightBits) rfl (fun _ _ => rfl) fun _ => rfl
  | counterBits =>
    exact .of_keeps (Coding.keeps_natBelow fits.counterBits) rfl (fun _ _ => rfl) fun _ => rfl
  | phtIndexBits =>
    exact .of_keeps (Coding.keeps_natBelow fits.phtIndexBits) rfl (fun _ _ => rfl) fun _ => rfl
  | useHashing => exact .of_keeps (Coding.keeps_bool c.useHashing) rfl (fun _ _ => rfl) fun _ => rfl
  | btbEntries =>
    exact .of_keeps (Coding.keeps_natBelow fits.btbEntries) rfl (fun _ _ => rfl) fun _ => rfl
  | targetCache =>
    exact .of_keeps (Coding.keeps_targetCacheKind c.targetCache) rfl (fun _ _ => rfl) fun _ => rfl
  | historyUpdate =>
    exact .of_keeps (Coding.keeps_historyUpdate c.historyUpdate) rfl (fun _ _ => rfl) fun _ => rfl

/-! ## Given fields -/

theorem Field.key_injective : Function.Injective Field.key := by
  intro f g same
  exact List.inj_on_of_nodup_map (by decide : (Field.all.map Field.key).Nodup)
    (by cases f <;> decide) (by cases g <;> decide) same

theorem Field.mem_all (f : Field) : f ∈ Field.all := by
  cases f <;> decide

/-- The members of an object that gives some fields. -/
def members (c : Config) (fs : List Field) : List (String × Json) :=
  fs.map fun f => (f.key, c.fieldValue f)

/-- The value that is given for a field, if there is one. -/
def given (c : Config) (fs : List Field) (f : Field) : Option Json :=
  if f ∈ fs then some (c.fieldValue f) else none

theorem keys_members (c : Config) (fs : List Field) :
    (c.members fs).map Prod.fst = fs.map Field.key := by
  rw [members, List.map_map]
  rfl

variable {fs : List Field}

theorem nodup_keys (distinct : fs.Nodup) : ((c.members fs).map Prod.fst).Nodup := by
  rw [keys_members]
  exact distinct.map Field.key_injective

theorem lookup_members (distinct : fs.Nodup) (f : Field) :
    (c.members fs).lookup f.key = c.given fs f := by
  by_cases inside : f ∈ fs
  · rw [given, if_pos inside]
    have member : (f.key, c.fieldValue f) ∈ c.members fs := List.mem_map.mpr ⟨f, inside, rfl⟩
    exact Json.lookup_of_mem_nodup (nodup_keys distinct) member
  · rw [given, if_neg inside]
    refine Json.lookup_eq_none fun member => inside ?_
    rw [keys_members] at member
    obtain ⟨g, other, same⟩ := List.mem_map.mp member
    exact Field.key_injective same ▸ other

/-- An object gives fields by name, in any order. -/
theorem fields?_members (distinct : fs.Nodup) :
    (Json.ofMembers (c.members fs)).fields? (Field.all.map Field.key) =
      some (Field.all.map (c.given fs)) := by
  rw [Json.fields?_ofMembers (nodup_keys distinct), List.map_map]
  exact congrArg some (List.map_congr_left fun f _ => lookup_members distinct f)

/-- An array gives the first fields by position. -/
theorem fields?_values (c : Config) (k : Nat) :
    (Json.arr ((Field.all.take k).map c.fieldValue)).fields? (Field.all.map Field.key) =
      some (Field.all.map (c.given (Field.all.take k))) := by
  have few : ((Field.all.take k).map c.fieldValue).length ≤ (Field.all.map Field.key).length := by
    simp only [List.length_map, List.length_take]
    omega
  have front : (Field.all.take k).map (c.given (Field.all.take k)) =
      ((Field.all.take k).map c.fieldValue).map some := by
    rw [List.map_map]
    exact List.map_congr_left fun f inside => if_pos inside
  -- no field is both among the given ones and after them
  have apart : (Field.all.take k).Disjoint (Field.all.drop k) :=
    List.disjoint_take_drop (by decide : Field.all.Nodup) le_rfl
  have back : (Field.all.drop k).map (c.given (Field.all.take k)) =
      List.replicate (Field.all.drop k).length none := by
    rw [← List.map_const']
    exact List.map_congr_left fun f inside => if_neg fun early => apart early inside
  have missing :
      (Field.all.map Field.key).length - ((Field.all.take k).map c.fieldValue).length =
        (Field.all.drop k).length := by
    simp only [List.length_map, List.length_take, List.length_drop]
    omega
  rw [Json.fields?_arr few, missing, ← front, ← back, ← List.map_append, List.take_append_drop]

/-- Assigning what is given for some fields gives the configuration with the new
values on these. -/
theorem foldlM_assign? (fits : c.Fits) (fs gs : List Field) (d : Config) :
    (gs.map fun f => (f, c.given fs f)).foldlM assign? d =
      some (d.overlay c (gs.filter (· ∈ fs))) := by
  -- on the fields that are still to come; those before them are in `d`
  induction gs generalizing d with
  | nil => exact congrArg some (overlay_nil d c).symm
  | cons f gs ih =>
    rw [List.map_cons, List.foldlM_cons, given]
    by_cases inside : f ∈ fs
    · rw [if_pos inside, assign?, (fieldKept fits f).assign, List.filter_cons_of_pos (by simpa)]
      exact (ih _).trans (congrArg some (overlay_overlay d c [f] _))
    · rw [if_neg inside, List.filter_cons_of_neg (by simpa)]
      exact ih d

/-- Whatever gives some fields is read as the default configuration with the given
values on these. -/
theorem decode_of_fields? (fits : c.Fits) {j : Json}
    (fields : j.fields? (Field.all.map Field.key) = some (Field.all.map (c.given fs))) :
    Coding.config.decode j = some (default.overlay c fs) := by
  have pairs : Field.all.zip (Field.all.map (c.given fs)) =
      Field.all.map fun f => (f, c.given fs f) := List.map_prod_left_eq_zip.symm
  -- the reader goes through all fields in their own order and assigns the given ones
  have same : ∀ f, f ∈ Field.all.filter (· ∈ fs) ↔ f ∈ fs := by
    intro f
    simp [Field.mem_all f]
  change (j.fields? _ >>= fun values => (Field.all.zip values).foldlM assign? default) = _
  rw [fields]
  change (Field.all.zip _).foldlM assign? default = _
  rw [pairs, foldlM_assign? fits, overlay_congr default c same]

/-! ## Texts -/

/-- Every text of a value is read as a configuration, which is then accepted or
rejected as its values are. -/
structure ReadFrom (d : Config) (j : Json) : Prop where
  /-- The value has texts: those that consist of its tokens. -/
  parse : ∀ text : String, Json.Spaced j.tokens text.toList → Json.parse text = some j
  read : ∀ text, Json.parse text = some j → Coding.config.read? text = some d
  accepted : ∀ text, Json.parse text = some j → (ofJson text = .ok d ↔ d.validate = .ok ())
  rejected : ∀ text, Json.parse text = some j →
    ∀ error, ofJson text = .error (.config error) ↔ d.validate = .error error

theorem ofJson_of_read? {text : String} {d : Config} (read : Coding.config.read? text = some d) :
    (ofJson text = .ok d ↔ d.validate = .ok ()) ∧
      ∀ error, ofJson text = .error (.config error) ↔ d.validate = .error error := by
  unfold ofJson
  rw [read]
  cases checked : d.validate with
  | ok _ => simp [checked]
  | error e => simp [checked]

theorem ReadFrom.of_decode {d : Config} {j : Json} (legible : j.Legible)
    (decode : Coding.config.decode j = some d) : d.ReadFrom j := by
  have read : ∀ text, Json.parse text = some j → Coding.config.read? text = some d := by
    intro text parsed
    rw [Coding.read?, parsed, Option.bind_some, decode]
  exact {
    parse := fun text spaced => Json.parse_of_spaced spaced legible
    read := read
    accepted := fun text parsed => (ofJson_of_read? (read text parsed)).1
    rejected := fun text parsed => (ofJson_of_read? (read text parsed)).2 }

theorem legible_members (fits : c.Fits) (fs : List Field) :
    (Json.ofMembers (c.members fs)).Legible := by
  refine Json.legible_ofMembers fun m member => ?_
  obtain ⟨f, _, rfl⟩ := List.mem_map.mp member
  exact (fieldKept fits f).legible

theorem legible_values (fits : c.Fits) (fs : List Field) :
    (Json.arr (fs.map c.fieldValue)).Legible := by
  refine Json.legible_arr fun item member => ?_
  obtain ⟨f, _, rfl⟩ := List.mem_map.mp member
  exact (fieldKept fits f).legible

end Config

/-- A configuration of 64-bit sizes and 32-bit widths is kept, valid or not. -/
theorem Coding.keeps_config {c : Config} (fits : c.Fits) : config.Keeps c where
  legible := c.legible_members fits Config.Field.all
  decode_encode := by
    have fields := c.fields?_members (by decide : Config.Field.all.Nodup)
    exact (Config.decode_of_fields? fits fields).trans (congrArg some (Config.overlay_all _ c))

namespace Config

variable {c : Config}

/-- **The law of the reader.** Let sizes be 64-bit numbers and widths 32-bit ones. An
object that gives any fields in any order is read as the configuration that has the
given values for these and the default values for all others. An array that gives
the first fields is read alike. What was written for a whole configuration is read
as this configuration. In each case the configuration is accepted if it is valid,
and rejected for the reason that it is not otherwise. -/
theorem readFrom_of_fits (fits : c.Fits) :
    (∀ fs : List Field, fs.Nodup →
      (default.overlay c fs).ReadFrom (.ofMembers (fs.map fun f => (f.key, c.fieldValue f)))) ∧
    (∀ k, (default.overlay c (Field.all.take k)).ReadFrom
      (.arr ((Field.all.take k).map c.fieldValue))) ∧
    c.ReadFrom (Coding.config.encode c) ∧ Coding.config.read? (Coding.config.write c) = some c := by
  refine ⟨?_, ?_, ?_, ?_⟩
  · intro fs distinct
    have decode := decode_of_fields? fits (c.fields?_members distinct)
    exact .of_decode (c.legible_members fits fs) decode
  · intro k
    have decode := decode_of_fields? fits (c.fields?_values k)
    exact .of_decode (c.legible_values fits _) decode
  · have keeps := Coding.keeps_config fits
    exact .of_decode keeps.legible keeps.decode_encode
  · exact (Coding.keeps_config fits).read?_write

/-- Sizes and widths as large as they can be written. -/
def widestFields : Config where
  kind := .twoLevel
  entries := 2 ^ 64 - 1
  historyLength := 2 ^ 64 - 1
  weightBits := 2 ^ 32 - 1
  counterBits := 2 ^ 32 - 1
  phtIndexBits := 2 ^ 32 - 1
  useHashing := false
  btbEntries := 2 ^ 64 - 1
  targetCache := .counterIntegrated
  historyUpdate := none

/-- Three of these fields, the last one first and with nothing given for it. -/
theorem readFrom_of_fits_widest :
    widestFields.Fits ∧ [Field.historyUpdate, .weightBits, .entries].Nodup ∧
      Config.ReadFrom { entries := 2 ^ 64 - 1, weightBits := 2 ^ 32 - 1 } (.ofMembers [
        ("history_update", .null),
        ("weight_bits", .num "4294967295"),
        ("entries", .num "18446744073709551615")]) := by
  have fits : widestFields.Fits := by constructor <;> decide
  have distinct : [Field.historyUpdate, .weightBits, .entries].Nodup := by decide
  exact ⟨fits, distinct, (readFrom_of_fits fits).1 _ distinct⟩

end Config

end BranchPrediction
