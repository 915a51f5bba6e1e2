import BranchPrediction.Config.Basic
/-!
# Valid configurations

Table sizes are powers of two, and every width stays within what the tables and
registers can hold. The checks run in a fixed order and the first failure is
reported.

## Main definitions

* `ConfigError`: why a configuration is rejected
* `ConfigError.message`: the wording
* `checkTable`: the check of one table size
* `Config.validate`: the check of a whole configuration
-/

namespace BranchPrediction

/-- What limits the length of a history. -/
inductive HistoryHolder where
  /-- The history indexes a table of its own. -/
  | localTable
  /-- The history fills a machine word. -/
  | register
  deriving DecidableEq

/-- The longest history that fits. -/
def HistoryHolder.limit : HistoryHolder → Nat
  | localTable => 24
  | register => 64

/-- The written name of the limit. -/
def HistoryHolder.name : HistoryHolder → String
  | localTable => "two-level local predictor"
  | register => "history register"

def maxIndexBits : Nat := 24

def maxWeightBits : Nat := 16

def maxCounterBits : Nat := 8

/-- Why a configuration is rejected. -/
inductive ConfigError where
  | notPowerOfTwo (field : Config.Field) (size : Nat)
  | historyTooShort (length : Nat)
  | historyTooLong (length : Nat) (holder : HistoryHolder)
  | weightBits (width : Nat)
  | counterBits (width : Nat)
  | indexBits (field : Config.Field) (width : Nat)
  | unknownPreset (name : String)
  deriving DecidableEq

/-- The wording of a rejection. -/
def ConfigError.message : ConfigError → String
  | notPowerOfTwo field size =>
    field.key ++ " must be a power of two, got " ++ toString size
  | historyTooShort length =>
    "history_length must be at least 1, got " ++ toString length
  | historyTooLong length holder =>
    "history_length " ++ toString length ++ " exceeds the maximum of " ++
      toString holder.limit ++ " for " ++ holder.name
  | weightBits width =>
    "weight_bits must be in 2..=" ++ toString maxWeightBits ++ ", got " ++ toString width
  | counterBits width =>
    "counter_bits must be in 1..=" ++ toString maxCounterBits ++ ", got " ++ toString width
  | indexBits field width =>
    field.key ++ " must be in 1..=" ++ toString maxIndexBits ++ ", got " ++ toString width
  | unknownPreset name =>
    "unknown predictor preset '" ++ name ++ "'"

/-- A table has a power of two of cells, and its index is not too wide. -/
def checkTable (field : Config.Field) (size : Nat) : Except ConfigError Unit := do
  let width := Config.indexWidth size
  unless size = 2 ^ width do
    throw (.notPowerOfTwo field size)
  unless width ≤ maxIndexBits do
    throw (.indexBits field width)

/-- The table sizes that pass are the powers of two up to the widest index. -/
theorem checkTable_eq_ok_iff (field : Config.Field) (size : Nat) :
    checkTable field size = .ok () ↔ ∃ k ≤ maxIndexBits, size = 2 ^ k := by
  constructor
  · intro h
    simp only [checkTable] at h
    by_cases power : size = 2 ^ Config.indexWidth size
    · by_cases narrow : Config.indexWidth size ≤ maxIndexBits
      · exact ⟨_, narrow, power⟩
      · simp [← power, narrow] at h
    · simp [power, bind, Except.bind, throw, throwThe, MonadExceptOf.throw] at h
  · rintro ⟨k, hk, rfl⟩
    have width : Config.indexWidth (2 ^ k) = k :=
      Config.indexWidth_two_pow k (Nat.le_trans hk (by decide))
    simp [checkTable, width, hk, pure, Except.pure]

namespace Config

/-- What holds the histories of a configuration. -/
def historyHolder (c : Config) : HistoryHolder :=
  match c.kind with
  | .twoLevel => .localTable
  | _ => .register

/-- Checks every field and reports the first failure. -/
def validate (c : Config) : Except ConfigError Unit := do
  checkTable .entries c.entries
  checkTable .btbEntries c.btbEntries
  unless 1 ≤ c.historyLength do
    throw (.historyTooShort c.historyLength)
  unless c.historyLength ≤ c.historyHolder.limit do
    throw (.historyTooLong c.historyLength c.historyHolder)
  unless 2 ≤ c.weightBits ∧ c.weightBits ≤ maxWeightBits do
    throw (.weightBits c.weightBits)
  unless 1 ≤ c.counterBits ∧ c.counterBits ≤ maxCounterBits do
    throw (.counterBits c.counterBits)
  unless 1 ≤ c.phtIndexBits ∧ c.phtIndexBits ≤ maxIndexBits do
    throw (.indexBits .phtIndexBits c.phtIndexBits)

end Config

end BranchPrediction
