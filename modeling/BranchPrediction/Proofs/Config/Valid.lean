import BranchPrediction.Config.Validation
/-!
# The configurations that pass the checks

The checks of a configuration are opened here once. What they leave is a plain
statement about every field, and later arguments start from that.

## Main definitions

* `Config.Valid`: the ranges of all fields

## Main results

* `Config.validate_eq_ok_iff`: the checks accept exactly these ranges
-/

namespace BranchPrediction

section Guards

variable {ε α β : Type}

/-- Two steps that may fail succeed together. -/
theorem bind_eq_ok_iff {x : Except ε α} {f : α → Except ε β} {b : β} :
    x >>= f = .ok b ↔ ∃ a, x = .ok a ∧ f a = .ok b := by
  cases x <;> simp [bind, Except.bind]

/-- Nothing runs after a failure. -/
theorem throw_bind (e : ε) (f : α → Except ε β) : (throw e >>= f) = throw e :=
  rfl

/-- A guarded step succeeds if its guard holds and it succeeds itself. -/
theorem guard_eq_ok_iff {p : Prop} [Decidable p] {x : Except ε α} {e : ε} {a : α} :
    (if p then x else throw e) = .ok a ↔ p ∧ x = .ok a := by
  by_cases holds : p <;> simp [holds, throw, throwThe, MonadExceptOf.throw]

/-- Two steps fail as the first one does, or after it as the second one does. -/
theorem bind_eq_error_iff {x : Except ε α} {f : α → Except ε β} {e : ε} :
    x >>= f = .error e ↔ x = .error e ∨ ∃ a, x = .ok a ∧ f a = .error e := by
  cases x <;> simp [bind, Except.bind]

/-- A guarded step fails as it would alone, or because its guard does not hold. -/
theorem guard_eq_error_iff {p : Prop} [Decidable p] {x : Except ε α} {e e' : ε} :
    (if p then x else throw e') = .error e ↔ p ∧ x = .error e ∨ ¬p ∧ e' = e := by
  by_cases holds : p <;> simp [holds, throw, throwThe, MonadExceptOf.throw]

end Guards

namespace Config

/-- Every field is in its range. -/
structure Valid (c : Config) : Prop where
  entries_eq : c.entries = 2 ^ c.indexBits
  indexBits_le : c.indexBits ≤ maxIndexBits
  btbEntries_eq : c.btbEntries = 2 ^ c.btbIndexBits
  btbIndexBits_le : c.btbIndexBits ≤ maxIndexBits
  historyLength_pos : 1 ≤ c.historyLength
  /-- A history fits where it is held. -/
  historyLength_le : c.historyLength ≤ c.historyHolder.limit
  /-- A weight has a sign bit and a value bit at least. -/
  two_le_weightBits : 2 ≤ c.weightBits
  weightBits_le : c.weightBits ≤ maxWeightBits
  counterBits_pos : 1 ≤ c.counterBits
  counterBits_le : c.counterBits ≤ maxCounterBits
  phtIndexBits_pos : 1 ≤ c.phtIndexBits
  phtIndexBits_le : c.phtIndexBits ≤ maxIndexBits

/-- A table size passes its check if it is the power of two of its index width. -/
theorem checkTable_eq_ok_iff_width (field : Field) (size : Nat) (u : Unit) :
    checkTable field size = .ok u ↔
      size = 2 ^ indexWidth size ∧ indexWidth size ≤ maxIndexBits := by
  constructor
  · intro accepted
    obtain ⟨k, narrow, rfl⟩ := (checkTable_eq_ok_iff field size).mp accepted
    rw [indexWidth_two_pow k (Nat.le_trans narrow (by decide))]
    exact ⟨rfl, narrow⟩
  · rintro ⟨power, narrow⟩
    exact (checkTable_eq_ok_iff field size).mpr ⟨_, narrow, power⟩

/-- The checks accept exactly the configurations whose fields are in range. -/
theorem validate_eq_ok_iff (c : Config) : c.validate = .ok () ↔ c.Valid := by
  unfold validate
  simp only [bind_eq_ok_iff, throw_bind, guard_eq_ok_iff, checkTable_eq_ok_iff_width]
  constructor
  · rintro ⟨_, ⟨power, narrow⟩, _, ⟨power', narrow'⟩, pos, fits, weight, counter, index, _⟩
    exact ⟨power, narrow, power', narrow', pos, fits, weight.1, weight.2, counter.1, counter.2,
      index.1, index.2⟩
  · intro valid
    exact ⟨(), ⟨valid.entries_eq, valid.indexBits_le⟩,
      (), ⟨valid.btbEntries_eq, valid.btbIndexBits_le⟩,
      valid.historyLength_pos, valid.historyLength_le,
      ⟨valid.two_le_weightBits, valid.weightBits_le⟩,
      ⟨valid.counterBits_pos, valid.counterBits_le⟩,
      ⟨valid.phtIndexBits_pos, valid.phtIndexBits_le⟩, rfl⟩

section

variable {α : Type} {c : Config} {f : Unit → α}

/-- What is made after the checks is made from a valid configuration. -/
theorem map_validate_eq_ok_iff {a : α} : c.validate.map f = .ok a ↔ c.Valid ∧ f () = a := by
  rw [← validate_eq_ok_iff]
  cases c.validate <;> simp [Except.map]

/-- It is refused by the checks only. -/
theorem map_validate_eq_error_iff {e : ConfigError} :
    c.validate.map f = .error e ↔ c.validate = .error e := by
  cases c.validate <;> simp [Except.map]

end

/-- The checks do not look at the kind of the target cache. -/
theorem validate_with_targetCache (c : Config) (kind : TargetCacheKind) :
    validate { c with targetCache := kind } = c.validate :=
  rfl

end Config

end BranchPrediction
