import BranchPrediction.Proofs.Range.Checked
/-!
# How many counters local histories select

A local predictor has a counter for every history, twice as many for each outcome
that a history is longer. So local histories are limited to 24 outcomes, while a
history that only fills a register may have 64.

Which of the two limits is checked depends on the kind that a configuration names,
and a local predictor can be built from a configuration of any kind. Where the
predictor is chosen by kind the two agree, and then there are never too many
counters. A local predictor that is built from a configuration of another kind is
held to the greater limit, and may have more counters than the lesser one allows.

## Main definitions

* `TwoLevel.Bounded`: a predictor that keeps to the limit of local histories

## Main results

* `TwoLevel.bounded_iff`: a predictor keeps to the limit if its history does
* `TwoLevel.bounded_of_ofConfig_iff`: the configurations for which the checks see to that
* `TwoLevel.not_bounded_overlong`: a predictor that does not
-/

namespace BranchPrediction

namespace TwoLevel

/-- A predictor has a counter for each history, and not too many of them. Whatever branches
resolve, every address has a history and every history has a counter, so no access to a
table fails. -/
structure Bounded (c : Config) (p : TwoLevel) : Prop where
  historyLength_le : c.historyLength ≤ 24
  counters_le : p.counters.size ≤ 2 ^ 24
  /-- The counters are as many as there are histories. -/
  size_counters : ∀ trace : List Branch,
    (trace.foldl update p).counters.size = 2 ^ c.historyLength
  /-- Predictions and updates find the history of an address and the counter of that history. -/
  predict?_eq : ∀ (trace : List Branch) (pc : Addr),
    (trace.foldl update p).predict? pc = some ((trace.foldl update p).predict pc)
  update?_eq : ∀ (trace : List Branch) (br : Branch),
    (trace.foldl update p).update? br = some ((trace.foldl update p).update br)
  /-- A counter can be asked for by any history of the right length. -/
  counterOf?_eq : ∀ (trace : List Branch) (h : History), h.Within c.historyLength →
    (trace.foldl update p).counterOf? h = some ((trace.foldl update p).counterOf h)

variable {c : Config} {p : TwoLevel}

theorem size_counters_foldl (p : TwoLevel) (trace : List Branch) :
    (trace.foldl update p).counters.size = p.counters.size := by
  induction trace generalizing p with
  | nil => rfl
  | cons br trace ih => rw [List.foldl_cons, ih, update, Table.size_modify]

theorem Sound.foldl (valid : c.Valid) (sound : p.Sound c) (trace : List Branch) :
    (trace.foldl TwoLevel.update p).Sound c :=
  List.foldlRecOn trace TwoLevel.update sound fun _ sound br _ => sound.update valid br

/-- A predictor is built from a valid configuration, and from its fields. -/
theorem ofConfig_eq_ok_iff : ofConfig c = .ok p ↔ c.Valid ∧ fresh c = p := by
  rw [ofConfig_eq]
  exact Config.map_validate_eq_ok_iff

theorem bounded_fresh (valid : c.Valid) (short : c.historyLength ≤ 24) :
    (fresh c).Bounded c := by
  have size : (fresh c).counters.size = 2 ^ c.historyLength := Table.size_fresh _ _
  have sound := fun trace => (sound_fresh valid).foldl valid trace
  constructor
  case historyLength_le => exact short
  case counters_le =>
    rw [size]
    exact Nat.pow_le_pow_right (by decide) short
  case size_counters =>
    intro trace
    rw [size_counters_foldl, size]
  case predict?_eq => exact fun trace => (sound trace).predict?_eq
  case update?_eq => exact fun trace => (sound trace).update?_eq valid
  case counterOf?_eq => exact fun trace _ within => (sound trace).counterOf?_eq within

/-- A predictor that was built keeps to the limit if and only if its history does. -/
theorem bounded_iff (built : ofConfig c = .ok p) : p.Bounded c ↔ c.historyLength ≤ 24 := by
  obtain ⟨valid, rfl⟩ := ofConfig_eq_ok_iff.mp built
  exact ⟨Bounded.historyLength_le, bounded_fresh valid⟩

/-- For their own kind the checks know the limit. -/
theorem bounded_of_twoLevel (built : ofConfig c = .ok p) (kind : c.kind = .twoLevel) :
    p.Bounded c := by
  have short := (ofConfig_eq_ok_iff.mp built).1.historyLength_le
  rw [Config.historyHolder, kind] at short
  exact (bounded_iff built).mpr short

/-- A predictor that is chosen by kind is built from a configuration of its kind. -/
theorem of_chosen (chosen : DirectionPredictor.ofConfig c = .ok (some (.twoLevel p))) :
    c.kind = .twoLevel ∧ ofConfig c = .ok p := by
  rw [DirectionPredictor.ofConfig_eq] at chosen
  obtain ⟨valid, chosen⟩ := Config.map_validate_eq_ok_iff.mp chosen
  unfold DirectionPredictor.fresh at chosen
  cases kind : c.kind <;> rw [kind] at chosen <;> cases chosen
  exact ⟨rfl, ofConfig_eq_ok_iff.mpr ⟨valid, rfl⟩⟩

/-- **The limit of local histories.** A configuration yields only local predictors that keep
to the limit, and never leave their tables, if and only if it is refused, or its kind is
that of a local predictor, or its history is short enough. The local predictor that is
chosen by kind always keeps to the limit. -/
theorem bounded_of_ofConfig_iff (c : Config) :
    ((∀ p, ofConfig c = .ok p → p.Bounded c) ↔
      (c.validate = .ok () → c.kind = .twoLevel ∨ c.historyLength ≤ 24)) ∧
      ∀ p, DirectionPredictor.ofConfig c = .ok (some (.twoLevel p)) → p.Bounded c := by
  refine ⟨⟨?_, ?_⟩, ?_⟩
  · intro promised accepted
    have valid := (Config.validate_eq_ok_iff c).mp accepted
    have built := ofConfig_eq_ok_iff.mpr ⟨valid, rfl⟩
    exact Or.inr (promised _ built).historyLength_le
  · intro kept p built
    have valid := (ofConfig_eq_ok_iff.mp built).1
    rcases kept ((Config.validate_eq_ok_iff c).mpr valid) with kind | short
    · exact bounded_of_twoLevel built kind
    · exact (bounded_iff built).mpr short
  · intro p chosen
    obtain ⟨kind, built⟩ := of_chosen chosen
    exact bounded_of_twoLevel built kind

/-- A configuration of some kind whose history is one outcome too long for local histories. -/
def overlong (kind : PredictorKind) : Config :=
  { kind, entries := 1, historyLength := 25, btbEntries := 1 }

/-- A history of 25 outcomes is refused for local predictors. Under the name of another
kind it passes, and a local predictor that is built from it has twice the counters that
the limit allows. -/
theorem not_bounded_overlong :
    ofConfig (overlong .twoLevel) = .error (.historyTooLong 25 .localTable) ∧
      (overlong .bimodal).validate = .ok () ∧
      ∃ p, ofConfig (overlong .bimodal) = .ok p ∧ p.counters.size = 2 ^ 25 ∧
        ¬ p.Bounded (overlong .bimodal) := by
  have refused : ofConfig (overlong .twoLevel) = .error (.historyTooLong 25 .localTable) := by
    rw [ofConfig_eq]
    rfl
  have valid : (overlong .bimodal).Valid := (Config.validate_eq_ok_iff _).mp rfl
  have built := ofConfig_eq_ok_iff.mpr ⟨valid, rfl⟩
  have long : ¬ (overlong .bimodal).historyLength ≤ 24 := by decide
  exact ⟨refused, rfl, _, built, Table.size_fresh _ _, mt (bounded_iff built).mp long⟩

end TwoLevel

end BranchPrediction
