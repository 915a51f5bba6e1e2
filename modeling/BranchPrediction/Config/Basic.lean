import BranchPrediction.Power
/-!
# Predictor configurations

One record describes every variant of the prediction unit: which direction
predictor it has, how large its tables are, how wide its counters, weights and
histories, and which target cache stands beside it.

## Main definitions

* `PredictorKind`, `TargetCacheKind`, `ShiftOrder`: the choices of a configuration
* `Config`: a configuration, with the default values of its fields
* `Config.Field`: the fields in declaration order, with their names
* `Config.shiftOrder`: the order in which history and index are updated
* `Config.label`, `Config.display`: short texts that name the variant
-/

namespace BranchPrediction

/-- The direction prediction algorithms. -/
inductive PredictorKind where
  /-- No direction predictor: the target cache decides. -/
  | btb
  /-- A table of counters indexed by address. -/
  | bimodal
  /-- Counters indexed by address, or by address and recent global history. -/
  | gshare
  /-- Counters indexed by address and folded global history. -/
  | gshareFolded
  /-- Counters as for `gshare`, gated by a private target buffer. -/
  | gshareBtb
  /-- Shared counters indexed by a history kept per branch. -/
  | twoLevel
  /-- Rows of weights for the bits of the global history. -/
  | perceptron
  deriving DecidableEq

/-- The target caches. -/
inductive TargetCacheKind where
  /-- Targets with a direction counter each. -/
  | counterIntegrated
  /-- Targets only. -/
  | targetOnly
  deriving DecidableEq

/-- Whether the history takes in an outcome before or after the trained index
is computed. -/
inductive ShiftOrder where
  /-- The index is computed from the new history. -/
  | shiftFirst
  /-- The index is computed from the old history. -/
  | shiftLast
  deriving DecidableEq

/-! ## Names -/

/-- The written names of the direction predictors. -/
def PredictorKind.name : PredictorKind → String
  | btb => "Btb"
  | bimodal => "Bimodal"
  | gshare => "GShare"
  | gshareFolded => "GShareFolded"
  | gshareBtb => "GShareBtb"
  | twoLevel => "TwoLevel"
  | perceptron => "Perceptron"

/-- Every direction predictor. -/
def PredictorKind.all : List PredictorKind :=
  [btb, bimodal, gshare, gshareFolded, gshareBtb, twoLevel, perceptron]

/-- The written names of the target caches. -/
def TargetCacheKind.name : TargetCacheKind → String
  | counterIntegrated => "CounterIntegrated"
  | targetOnly => "TargetOnly"

/-- Every target cache. -/
def TargetCacheKind.all : List TargetCacheKind :=
  [counterIntegrated, targetOnly]

/-- The written names of the shift orders. -/
def ShiftOrder.name : ShiftOrder → String
  | shiftFirst => "ShiftFirst"
  | shiftLast => "ShiftLast"

/-- Every shift order. -/
def ShiftOrder.all : List ShiftOrder :=
  [shiftFirst, shiftLast]

/-! ## Configurations -/

/-- A configuration of the branch prediction unit. Sizes and widths are checked
only when something is built from it. -/
@[ext]
structure Config where
  kind : PredictorKind := .gshareFolded
  /-- The number of cells of the table indexed by address. -/
  entries : Nat := 1024
  historyLength : Nat := 8
  weightBits : Nat := 8
  counterBits : Nat := 2
  phtIndexBits : Nat := 10
  /-- Whether recent history is mixed into the index. -/
  useHashing : Bool := true
  /-- The number of cells of the target cache. -/
  btbEntries : Nat := 64
  targetCache : TargetCacheKind := .targetOnly
  /-- The shift order, if it is not the usual one of the variant. -/
  historyUpdate : Option ShiftOrder := none
  deriving DecidableEq

namespace Config

/-- The default configuration. -/
def default : Config :=
  {}

instance : Inhabited Config :=
  ⟨default⟩

/-- The fields of a configuration. -/
inductive Field where
  | kind
  | entries
  | historyLength
  | weightBits
  | counterBits
  | phtIndexBits
  | useHashing
  | btbEntries
  | targetCache
  | historyUpdate
  deriving DecidableEq

/-- The fields in declaration order. -/
def Field.all : List Field :=
  [kind, entries, historyLength, weightBits, counterBits, phtIndexBits, useHashing, btbEntries,
    targetCache, historyUpdate]

/-- The written name of a field. -/
def Field.key : Field → String
  | kind => "kind"
  | entries => "entries"
  | historyLength => "history_length"
  | weightBits => "weight_bits"
  | counterBits => "counter_bits"
  | phtIndexBits => "pht_index_bits"
  | useHashing => "use_hashing"
  | btbEntries => "btb_entries"
  | targetCache => "target_cache"
  | historyUpdate => "history_update"

/-! ## Derived values -/

/-- The number of times two divides `n`, at most `bound`. -/
def factorsOfTwo (n : Nat) : Nat → Nat
  | 0 => 0
  | bound + 1 => if n % 2 = 0 then factorsOfTwo (n / 2) bound + 1 else 0

/-- The index width of a table of `size` cells: the number of zero bits below
the lowest set bit of a 64-bit size. -/
def indexWidth (size : Nat) : Nat :=
  factorsOfTwo size 64

theorem factorsOfTwo_two_pow (k bound : Nat) (h : k ≤ bound) : factorsOfTwo (2 ^ k) bound = k := by
  induction k generalizing bound with
  | zero => cases bound <;> simp [factorsOfTwo]
  | succ k ih =>
    cases bound with
    | zero => omega
    | succ bound =>
      have even : 2 ^ (k + 1) % 2 = 0 := by omega
      have half : 2 ^ (k + 1) / 2 = 2 ^ k := by omega
      simp [factorsOfTwo, even, half, ih bound (by omega)]

/-- A table of `2 ^ k` cells has an index of `k` bits. -/
theorem indexWidth_two_pow (k : Nat) (h : k ≤ 64) : indexWidth (2 ^ k) = k :=
  factorsOfTwo_two_pow k 64 h

/-- The index width of the table indexed by address. -/
def indexBits (c : Config) : Nat :=
  indexWidth c.entries

/-- The index width of the target cache. -/
def btbIndexBits (c : Config) : Nat :=
  indexWidth c.btbEntries

/-- The shift order: the given one, else the usual one of the variant. Folded
history shifts first. -/
def shiftOrder (c : Config) : ShiftOrder :=
  c.historyUpdate.getD <|
    match c.kind with
    | .gshareFolded => .shiftFirst
    | _ => .shiftLast

/-- The short name of the variant. -/
def label (c : Config) : String :=
  match c.kind, c.useHashing with
  | .btb, _ => "btb"
  | .bimodal, _ => "bimodal"
  | .gshare, false => "gshare-direct"
  | .gshare, true => "gshare-xor"
  | .gshareFolded, _ => "gshare-folded"
  | .gshareBtb, _ => "gshare-btb"
  | .twoLevel, _ => "two-level"
  | .perceptron, false => "perceptron"
  | .perceptron, true => "perceptron-hashed"

/-- The name of the variant with its sizes. -/
def display (c : Config) : String :=
  c.label ++ " (entries=" ++ toString c.entries ++ ", history=" ++ toString c.historyLength ++
    ", btb=" ++ toString c.btbEntries ++ " " ++ c.targetCache.name ++ ")"

end Config

end BranchPrediction
