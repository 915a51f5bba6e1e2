import BranchPrediction.Proofs.Fresh
/-!
# What is refused, and why

A configuration is accepted if every field is in a range that does not depend on the
others, but for the length of the history, which is limited further where histories
index a table. Otherwise the first failing check is reported, and what it reports can
be seen in the configuration.

Everything that is built from a configuration checks it. Some of the checks are made
several times, by a unit and then by its parts, or by a target buffer that checks its
size once more. No later check finds anything that an earlier one passed, so whatever
is built is refused by the checks of the configuration and for their reason.

## Main definitions

* `Config.InRange`: the ranges of the fields
* `ConfigError.Concerns`: what a reported error says about a configuration
* `Config.ChecksDecide`: something is refused by the checks of a configuration

## Main results

* `Config.valid_iff_inRange`: a table size is in range if it is a small power of two
* `Config.concerns_of_error`: a reported error is true of the configuration
* `Config.checks_decide`: the checks decide about everything that is built
-/

namespace BranchPrediction

/-! ## Ranges -/

namespace Config

/-- Every field is in its range. -/
structure InRange (c : Config) : Prop where
  entries : ∃ k ≤ 24, c.entries = 2 ^ k
  btbEntries : ∃ k ≤ 24, c.btbEntries = 2 ^ k
  /-- Local histories index a table, others fill a machine word at most. -/
  historyLength : 1 ≤ c.historyLength ∧ c.historyLength ≤ if c.kind = .twoLevel then 24 else 64
  weightBits : 2 ≤ c.weightBits ∧ c.weightBits ≤ 16
  counterBits : 1 ≤ c.counterBits ∧ c.counterBits ≤ 8
  phtIndexBits : 1 ≤ c.phtIndexBits ∧ c.phtIndexBits ≤ 24

variable {c : Config}

theorem limit_historyHolder (c : Config) :
    c.historyHolder.limit = if c.kind = .twoLevel then 24 else 64 := by
  unfold historyHolder
  cases c.kind <;> rfl

/-- A size is a power of two with a narrow index if it is the power of its index width. -/
theorem exists_two_pow_iff (size : Nat) :
    (∃ k ≤ 24, size = 2 ^ k) ↔ size = 2 ^ indexWidth size ∧ indexWidth size ≤ 24 := by
  have decided := checkTable_eq_ok_iff .entries size
  exact decided.symm.trans (checkTable_eq_ok_iff_width .entries size ())

theorem valid_iff_inRange : c.Valid ↔ c.InRange := by
  constructor
  · intro valid
    constructor
    case entries => exact (exists_two_pow_iff _).mpr ⟨valid.entries_eq, valid.indexBits_le⟩
    case btbEntries =>
      exact (exists_two_pow_iff _).mpr ⟨valid.btbEntries_eq, valid.btbIndexBits_le⟩
    case historyLength =>
      exact ⟨valid.historyLength_pos, limit_historyHolder c ▸ valid.historyLength_le⟩
    case weightBits => exact ⟨valid.two_le_weightBits, valid.weightBits_le⟩
    case counterBits => exact ⟨valid.counterBits_pos, valid.counterBits_le⟩
    case phtIndexBits => exact ⟨valid.phtIndexBits_pos, valid.phtIndexBits_le⟩
  · intro range
    obtain ⟨entries, indexBits⟩ := (exists_two_pow_iff _).mp range.entries
    obtain ⟨btbEntries, btbIndexBits⟩ := (exists_two_pow_iff _).mp range.btbEntries
    exact ⟨entries, indexBits, btbEntries, btbIndexBits, range.historyLength.1,
      limit_historyHolder c ▸ range.historyLength.2, range.weightBits.1, range.weightBits.2,
      range.counterBits.1, range.counterBits.2, range.phtIndexBits.1, range.phtIndexBits.2⟩

/-! ## Reported errors -/

/-- The number of cells that a field gives to a table, if it is a table size. -/
def tableSize? (c : Config) : Field → Option Nat
  | .entries => some c.entries
  | .btbEntries => some c.btbEntries
  | _ => none

end Config

/-- What a reported error says about a configuration: which value is out of its range. -/
def ConfigError.Concerns (c : Config) : ConfigError → Prop
  | notPowerOfTwo field size => c.tableSize? field = some size ∧ ∀ k ≤ 64, size ≠ 2 ^ k
  | historyTooShort length => length = c.historyLength ∧ length < 1
  | historyTooLong length holder =>
    length = c.historyLength ∧ holder = c.historyHolder ∧ holder.limit < length
  | weightBits width => width = c.weightBits ∧ ¬ (2 ≤ width ∧ width ≤ 16)
  | counterBits width => width = c.counterBits ∧ ¬ (1 ≤ width ∧ width ≤ 8)
  | indexBits field width =>
    -- of a table with too many cells, or of the pattern table, whose width is given
    c.tableSize? field = some (2 ^ width) ∧ 24 < width ∨
      field = .phtIndexBits ∧ width = c.phtIndexBits ∧ ¬ (1 ≤ width ∧ width ≤ 24)
  | unknownPreset _ => False

namespace Config

variable {c : Config}

theorem concerns_of_checkTable {field : Field} {size : Nat} {e : ConfigError}
    (sized : c.tableSize? field = some size) (refused : checkTable field size = .error e) :
    e.Concerns c := by
  simp only [checkTable, throw_bind, guard_eq_error_iff] at refused
  rcases refused with ⟨power, ⟨-, passed⟩ | ⟨wide, rfl⟩⟩ | ⟨odd, rfl⟩
  · cases passed
  · left
    rw [← power]
    exact ⟨sized, Nat.not_le.mp wide⟩
  · refine ⟨sized, ?_⟩
    rintro k fits rfl
    exact odd (congrArg (2 ^ ·) (indexWidth_two_pow k fits).symm)

/-- A reported error is true of the configuration. -/
theorem concerns_of_error {e : ConfigError} (refused : c.validate = .error e) : e.Concerns c := by
  simp only [validate, throw_bind, bind_eq_error_iff, guard_eq_error_iff] at refused
  -- the checks in their order, the last ones nested in the first
  rcases refused with entries | ⟨-, -, btbEntries | ⟨-, -, refused⟩⟩
  · exact concerns_of_checkTable rfl entries
  · exact concerns_of_checkTable rfl btbEntries
  rcases refused with ⟨-, refused⟩ | ⟨short, rfl⟩
  rcases refused with ⟨-, refused⟩ | ⟨long, rfl⟩
  rcases refused with ⟨-, refused⟩ | ⟨weight, rfl⟩
  rcases refused with ⟨-, refused⟩ | ⟨counter, rfl⟩
  rcases refused with ⟨-, passed⟩ | ⟨index, rfl⟩
  · cases passed
  · exact Or.inr ⟨rfl, rfl, index⟩
  · exact ⟨rfl, counter⟩
  · exact ⟨rfl, weight⟩
  · exact ⟨rfl, rfl, Nat.not_le.mp long⟩
  · exact ⟨rfl, Nat.not_le.mp short⟩

/-! ## Refusals -/

/-- Something that is built from a configuration is refused by its checks, and for their
reason. -/
def ChecksDecide {α : Type} (c : Config) (built : Except ConfigError α) : Prop :=
  ∀ e, built = .error e ↔ c.validate = .error e

/-- What is built after the checks, and cannot fail by then, is refused by them. -/
theorem checksDecide_of_eq_map {α : Type} {built : Except ConfigError α} {f : Unit → α}
    (checked : built = c.validate.map f) : c.ChecksDecide built := by
  intro e
  rw [checked]
  exact map_validate_eq_error_iff

/-- **The checks decide.** A configuration passes its checks if and only if every field is
in its range, and an error that they report is true of it. The direction predictors, with
any index scheme and shift order, their choice by kind, the target cache, the unit and
its simulator are refused if and only if the checks fail, with the error of the checks. -/
theorem checks_decide (c : Config) :
    (c.validate = .ok () ↔ c.InRange) ∧
      (∀ e, c.validate = .error e → e.Concerns c) ∧
      c.ChecksDecide (Bimodal.ofConfig c) ∧
      c.ChecksDecide (GShare.ofConfig c) ∧
      (∀ scheme order, c.ChecksDecide (GShare.withScheme c scheme order)) ∧
      c.ChecksDecide (GatedGShare.ofConfig c) ∧
      c.ChecksDecide (TwoLevel.ofConfig c) ∧
      c.ChecksDecide (Perceptron.ofConfig c) ∧
      c.ChecksDecide (DirectionPredictor.ofConfig c) ∧
      c.ChecksDecide (TargetCache.ofConfig c) ∧
      c.ChecksDecide (PredictionUnit.ofConfig c) ∧
      c.ChecksDecide (Simulator.ofConfig c) := by
  refine ⟨(validate_eq_ok_iff c).trans valid_iff_inRange, fun e => concerns_of_error, ?_⟩
  exact ⟨checksDecide_of_eq_map (Bimodal.ofConfig_eq c),
    checksDecide_of_eq_map (GShare.ofConfig_eq c),
    fun scheme order => checksDecide_of_eq_map (GShare.withScheme_eq c scheme order),
    checksDecide_of_eq_map (GatedGShare.ofConfig_eq c),
    checksDecide_of_eq_map (TwoLevel.ofConfig_eq c),
    checksDecide_of_eq_map (Perceptron.ofConfig_eq c),
    checksDecide_of_eq_map (DirectionPredictor.ofConfig_eq c),
    checksDecide_of_eq_map (TargetCache.ofConfig_eq c),
    checksDecide_of_eq_map (PredictionUnit.ofConfig_eq c),
    checksDecide_of_eq_map (Simulator.ofConfig_eq c)⟩

end Config

end BranchPrediction
