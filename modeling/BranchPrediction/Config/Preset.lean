import BranchPrediction.Config.Validation
import BranchPrediction.Text
/-!
# Presets

Eight named configurations cover the variants of the unit. A name is found
whatever the case of its ASCII letters.

## Main definitions

* `Preset`: the named configurations
* `Preset.config`: what a name stands for
* `Config.preset`: the configuration of a name
-/

namespace BranchPrediction

/-- The named configurations. -/
inductive Preset where
  | btb
  | bimodal
  | gshare
  | gshareFolded
  | gshareBtb
  | twoLevel
  | perceptronPlain
  | perceptronHashed
  deriving DecidableEq

namespace Preset

/-- The presets in the order of comparison tables. -/
def all : List Preset :=
  [btb, bimodal, gshare, gshareFolded, gshareBtb, twoLevel, perceptronPlain, perceptronHashed]

/-- The written name. -/
def name : Preset → String
  | btb => "btb"
  | bimodal => "bimodal"
  | gshare => "gshare"
  | gshareFolded => "gshare-folded"
  | gshareBtb => "gshare-btb"
  | twoLevel => "twolevel"
  | perceptronPlain => "per-t"
  | perceptronHashed => "per-b"

/-- The configuration of a preset. -/
def config : Preset → Config
  | btb => { kind := .btb, targetCache := .counterIntegrated }
  | bimodal => { kind := .bimodal }
  | gshare => { kind := .gshare }
  | gshareFolded => { kind := .gshareFolded, historyLength := 16 }
  | gshareBtb => { kind := .gshareBtb }
  | twoLevel => { kind := .twoLevel, entries := 256 }
  | perceptronPlain =>
    { kind := .perceptron, entries := 64, historyLength := 20, useHashing := false }
  | perceptronHashed =>
    { kind := .perceptron, entries := 64, historyLength := 20, useHashing := true }

end Preset

/-- The configuration of the preset with a given name. -/
def Config.preset (name : String) : Except ConfigError Config :=
  match Preset.all.find? fun p => sameIgnoringCase p.name name with
  | some p => .ok p.config
  | none => .error (.unknownPreset name)

end BranchPrediction
