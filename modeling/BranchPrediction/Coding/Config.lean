import BranchPrediction.Coding.Basic
import BranchPrediction.Config.Basic
/-!
# Codings of configurations

A configuration is a record of which every field may be left out; such a field
has its default value. Sizes and lengths are 64-bit numbers, widths 32-bit ones.
Reading does not check whether the configuration is valid.

## Main definitions

* `Coding.predictorKind`, `Coding.targetCacheKind`, `Coding.shiftOrder`
* `Config.fieldValue`, `Config.assign`: one field written and read
* `Coding.config`: the whole record
-/

namespace BranchPrediction

namespace Coding

/-- Direction predictors by name, some with a second spelling. -/
def predictorKind : Coding PredictorKind :=
  names PredictorKind.all PredictorKind.name [
    ("BTB", .btb),
    ("Gshare", .gshare),
    ("GshareFolded", .gshareFolded),
    ("GshareBtb", .gshareBtb),
    ("TwoLevelLocal", .twoLevel)]

/-- Target caches by name. -/
def targetCacheKind : Coding TargetCacheKind :=
  names TargetCacheKind.all TargetCacheKind.name []

/-- Shift orders by name. -/
def shiftOrder : Coding ShiftOrder :=
  names ShiftOrder.all ShiftOrder.name []

/-- Sizes and lengths. -/
def size : Coding Nat :=
  natBelow (2 ^ 64)

/-- Widths. -/
def width : Coding Nat :=
  natBelow (2 ^ 32)

end Coding

namespace Config

/-- The written value of a field. -/
def fieldValue (c : Config) : Field → Json
  | .kind => Coding.predictorKind.encode c.kind
  | .entries => Coding.size.encode c.entries
  | .historyLength => Coding.size.encode c.historyLength
  | .weightBits => Coding.width.encode c.weightBits
  | .counterBits => Coding.width.encode c.counterBits
  | .phtIndexBits => Coding.width.encode c.phtIndexBits
  | .useHashing => Coding.bool.encode c.useHashing
  | .btbEntries => Coding.size.encode c.btbEntries
  | .targetCache => Coding.targetCacheKind.encode c.targetCache
  | .historyUpdate => Coding.shiftOrder.option.encode c.historyUpdate

/-- The configuration with one field replaced by a written value. -/
def assign (c : Config) (f : Field) (j : Json) : Option Config :=
  match f with
  | .kind => (fun x => { c with kind := x }) <$> Coding.predictorKind.decode j
  | .entries => (fun x => { c with entries := x }) <$> Coding.size.decode j
  | .historyLength => (fun x => { c with historyLength := x }) <$> Coding.size.decode j
  | .weightBits => (fun x => { c with weightBits := x }) <$> Coding.width.decode j
  | .counterBits => (fun x => { c with counterBits := x }) <$> Coding.width.decode j
  | .phtIndexBits => (fun x => { c with phtIndexBits := x }) <$> Coding.width.decode j
  | .useHashing => (fun x => { c with useHashing := x }) <$> Coding.bool.decode j
  | .btbEntries => (fun x => { c with btbEntries := x }) <$> Coding.size.decode j
  | .targetCache => (fun x => { c with targetCache := x }) <$> Coding.targetCacheKind.decode j
  | .historyUpdate => (fun x => { c with historyUpdate := x }) <$> Coding.shiftOrder.option.decode j

/-- The configuration with a field replaced by a written value, if there is
one. -/
def assign? (c : Config) : Field × Option Json → Option Config
  | (f, some j) => c.assign f j
  | (_, none) => some c

end Config

/-- A configuration, validated or not. -/
def Coding.config : Coding Config where
  encode c := .ofMembers (Config.Field.all.map fun f => (f.key, c.fieldValue f))
  decode j := do
    let values ← j.fields? (Config.Field.all.map Config.Field.key)
    (Config.Field.all.zip values).foldlM Config.assign? Config.default

end BranchPrediction
