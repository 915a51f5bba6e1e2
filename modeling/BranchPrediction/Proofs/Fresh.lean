import BranchPrediction.Simulator
import BranchPrediction.Proofs.Config.Valid
/-!
# Fresh predictors

Everything that is built from a configuration is built in two steps: the checks
of the configuration, and then a plain value of its fields. The values are
named here, and every constructor is the checks followed by its value. Nothing
else can fail, since the sizes that a target buffer checks once more have passed
by then.

## Main definitions

* `Bimodal.fresh`, `GShare.fresh`, `GatedGShare.fresh`, `TwoLevel.fresh`,
  `Perceptron.fresh`, `DirectionPredictor.fresh`: the direction predictors
* `CounterBuffer.fresh`, `TargetBuffer.fresh`, `TargetCache.fresh`: the target caches
* `PredictionUnit.fresh`, `Simulator.fresh`: the unit and its simulator

## Main results

* `PredictionUnit.ofConfig_eq` and its companions: the checks decide alone
-/

namespace BranchPrediction

/-! ## Direction predictors -/

/-- The counters of a fresh bimodal predictor are weakly taken. -/
def Bimodal.fresh (c : Config) : Bimodal :=
  ⟨Table.fresh c.entries (Counter.weaklyTaken c.counterBits), c.indexBits⟩

theorem Bimodal.ofConfig_eq (c : Config) :
    Bimodal.ofConfig c = c.validate.map fun _ => Bimodal.fresh c := by
  unfold Bimodal.ofConfig
  cases c.validate <;> rfl

/-- The history of a fresh global predictor is empty of taken branches. -/
def GShare.fresh (c : Config) (scheme : IndexScheme) (order : ShiftOrder) : GShare where
  history := History.ofLength c.historyLength
  counters := Table.fresh (2 ^ c.phtIndexBits) (Counter.weaklyTaken c.counterBits)
  indexBits := c.phtIndexBits
  scheme := scheme
  order := order

theorem GShare.withScheme_eq (c : Config) (scheme : IndexScheme) (order : ShiftOrder) :
    GShare.withScheme c scheme order = c.validate.map fun _ => GShare.fresh c scheme order := by
  unfold GShare.withScheme
  cases c.validate <;> rfl

/-- The checks let every configuration pass whose fields are in range. -/
theorem GShare.withScheme_of_valid {c : Config} (valid : c.Valid) (scheme : IndexScheme)
    (order : ShiftOrder) :
    GShare.withScheme c scheme order = .ok (GShare.fresh c scheme order) := by
  rw [GShare.withScheme_eq, (Config.validate_eq_ok_iff c).mpr valid]
  rfl

theorem GShare.ofConfig_eq (c : Config) :
    GShare.ofConfig c =
      c.validate.map fun _ => GShare.fresh c (GShare.schemeOf c) c.shiftOrder :=
  GShare.withScheme_eq c _ _

/-- The empty buffer of a given number of slots. -/
def TargetBuffer.fresh (entries : Nat) : TargetBuffer :=
  ⟨Table.fresh entries .empty, Config.indexWidth entries⟩

theorem TargetBuffer.ofSize_eq (entries : Nat) :
    TargetBuffer.ofSize entries =
      (checkTable .btbEntries entries).map fun _ => TargetBuffer.fresh entries := by
  unfold TargetBuffer.ofSize
  cases checkTable .btbEntries entries <;> rfl

/-- A fresh gated predictor has an empty private buffer. -/
def GatedGShare.fresh (c : Config) : GatedGShare :=
  ⟨GShare.fresh c (GatedGShare.schemeOf c) c.shiftOrder, TargetBuffer.fresh c.btbEntries⟩

/-- The target cache of a valid configuration passes its own check. -/
theorem Config.Valid.checkTable_btbEntries {c : Config} (valid : c.Valid) :
    checkTable .btbEntries c.btbEntries = .ok () :=
  (Config.checkTable_eq_ok_iff_width _ _ _).mpr ⟨valid.btbEntries_eq, valid.btbIndexBits_le⟩

theorem GatedGShare.ofConfig_eq (c : Config) :
    GatedGShare.ofConfig c = c.validate.map fun _ => GatedGShare.fresh c := by
  unfold GatedGShare.ofConfig
  rw [GShare.withScheme_eq, TargetBuffer.ofSize_eq]
  cases checked : c.validate with
  | error e => rfl
  | ok u =>
    rw [((Config.validate_eq_ok_iff c).mp checked).checkTable_btbEntries]
    rfl

/-- A fresh two-level predictor has empty histories and weakly taken counters. -/
def TwoLevel.fresh (c : Config) : TwoLevel where
  histories := Table.fresh c.entries (History.ofLength c.historyLength)
  indexBits := c.indexBits
  counters := Table.fresh (2 ^ c.historyLength) (Counter.weaklyTaken c.counterBits)

theorem TwoLevel.ofConfig_eq (c : Config) :
    TwoLevel.ofConfig c = c.validate.map fun _ => TwoLevel.fresh c := by
  unfold TwoLevel.ofConfig
  cases c.validate <;> rfl

/-- The weights of a fresh perceptron are zero. -/
def Perceptron.fresh (c : Config) : Perceptron where
  history := History.ofLength c.historyLength
  rows := Table.fresh c.entries (Row.zero c.historyLength c.weightBits)
  indexBits := c.indexBits
  scheme := Perceptron.schemeOf c
  threshold := trainingThreshold c.historyLength

theorem Perceptron.ofConfig_eq (c : Config) :
    Perceptron.ofConfig c = c.validate.map fun _ => Perceptron.fresh c := by
  unfold Perceptron.ofConfig
  cases c.validate <;> rfl

/-- The fresh direction predictor of a configuration, if it has one. -/
def DirectionPredictor.fresh (c : Config) : Option DirectionPredictor :=
  match c.kind with
  | .btb => none
  | .bimodal => some (bimodal (.fresh c))
  | .gshare | .gshareFolded => some (gshare (.fresh c (GShare.schemeOf c) c.shiftOrder))
  | .gshareBtb => some (gatedGShare (.fresh c))
  | .twoLevel => some (twoLevel (.fresh c))
  | .perceptron => some (perceptron (.fresh c))

theorem DirectionPredictor.ofConfig_eq (c : Config) :
    DirectionPredictor.ofConfig c = c.validate.map fun _ => DirectionPredictor.fresh c := by
  unfold DirectionPredictor.ofConfig DirectionPredictor.fresh
  simp only [Bimodal.ofConfig_eq, GShare.ofConfig_eq, GatedGShare.ofConfig_eq,
    TwoLevel.ofConfig_eq, Perceptron.ofConfig_eq]
  cases c.kind <;> cases c.validate <;> rfl

/-- A fresh direction predictor is the fresh predictor of some variant. -/
theorem DirectionPredictor.of_fresh {c : Config} {P : DirectionPredictor → Prop}
    (bimodal : P (.bimodal (.fresh c)))
    (gshare : ∀ scheme order, P (.gshare (.fresh c scheme order)))
    (gatedGShare : P (.gatedGShare (.fresh c)))
    (twoLevel : P (.twoLevel (.fresh c)))
    (perceptron : P (.perceptron (.fresh c)))
    {d : DirectionPredictor} (built : DirectionPredictor.fresh c = some d) : P d := by
  unfold DirectionPredictor.fresh at built
  cases kind : c.kind <;> rw [kind] at built <;> cases built
  case bimodal => exact bimodal
  case gshare => exact gshare _ _
  case gshareFolded => exact gshare _ _
  case gshareBtb => exact gatedGShare
  case twoLevel => exact twoLevel
  case perceptron => exact perceptron

/-! ## Target caches -/

/-- The empty buffer with counters of a given number of slots. -/
def CounterBuffer.fresh (entries : Nat) : CounterBuffer :=
  ⟨Table.fresh entries .empty, Config.indexWidth entries⟩

theorem CounterBuffer.ofSize_eq (entries : Nat) :
    CounterBuffer.ofSize entries =
      (checkTable .btbEntries entries).map fun _ => CounterBuffer.fresh entries := by
  unfold CounterBuffer.ofSize
  cases checkTable .btbEntries entries <;> rfl

/-- The empty target cache of a configuration. -/
def TargetCache.fresh (c : Config) : TargetCache :=
  match c.targetCache with
  | .counterIntegrated => counterIntegrated (.fresh c.btbEntries)
  | .targetOnly => targetOnly (.fresh c.btbEntries)

theorem TargetCache.ofConfig_eq (c : Config) :
    TargetCache.ofConfig c = c.validate.map fun _ => TargetCache.fresh c := by
  unfold TargetCache.ofConfig TargetCache.fresh
  rw [CounterBuffer.ofSize_eq, TargetBuffer.ofSize_eq]
  cases checked : c.validate with
  | error e => rfl
  | ok u =>
    rw [((Config.validate_eq_ok_iff c).mp checked).checkTable_btbEntries]
    cases c.targetCache <;> rfl

/-! ## The unit -/

/-- The fresh unit of a configuration. -/
def PredictionUnit.fresh (c : Config) : PredictionUnit :=
  ⟨DirectionPredictor.fresh c, TargetCache.fresh c, c.label⟩

/-- A unit is built from every configuration that passes the checks, and the
checks give the only errors. -/
theorem PredictionUnit.ofConfig_eq (c : Config) :
    PredictionUnit.ofConfig c = c.validate.map fun _ => PredictionUnit.fresh c := by
  unfold PredictionUnit.ofConfig
  rw [DirectionPredictor.ofConfig_eq, TargetCache.ofConfig_eq]
  cases c.validate <;> rfl

theorem PredictionUnit.ofConfig_of_valid {c : Config} (valid : c.Valid) :
    PredictionUnit.ofConfig c = .ok (PredictionUnit.fresh c) := by
  rw [PredictionUnit.ofConfig_eq, (Config.validate_eq_ok_iff c).mpr valid]
  rfl

/-- The fresh simulator of a configuration. -/
def Simulator.fresh (c : Config) : Simulator :=
  ⟨PredictionUnit.fresh c, .empty⟩

theorem Simulator.ofConfig_eq (c : Config) :
    Simulator.ofConfig c = c.validate.map fun _ => Simulator.fresh c := by
  unfold Simulator.ofConfig
  rw [PredictionUnit.ofConfig_eq]
  cases c.validate <;> rfl

end BranchPrediction
