import BranchPrediction.Command.Result
import BranchPrediction.Proofs.Coding.Keeping
import BranchPrediction.Proofs.Json.Doubles
/-!
# What results show

The result of a command is text, and this module says what has to be found in it: the
counts and the rates, each at its place and under its name. Nothing is said about how
the text is put together. A rate is a double, and the text shows it with two decimal
places, rounded; in an object it is a number near the double. A cell of a table is
filled up with blanks, and no cell is cut off.

What commands write is then shown to contain what it has to.

## Main definitions

* `percentOf`, `Stats.wrong`, `Stats.right`: the rates that are shown
* `Stats.sum`: the counts of several runs
* `ShowsReport`: the report of a run under a title
* `ShowsRow`: a row in the table of a sweep
* `ShowsConfig`: the name of a configuration with its sizes
* `ShowsObject`: the result of a run as a value

## Main results

* `showsReport_report`, `showsRow_columns`, `showsConfig_display`, `showsObject_json`: what
  is written is what is meant
-/

namespace BranchPrediction

open Decimal

/-! ## Rates -/

/-- A part of the whole in percent; zero if there is nothing. -/
def percentOf (part whole : Nat) : Float :=
  if whole = 0 then 0.0 else Float.ofNat part / Float.ofNat whole * 100.0

/-- The branches that were predicted wrongly, in percent. -/
def Stats.wrong (s : Stats) : Float :=
  percentOf (s.directionMispredictions + s.targetMispredictions) s.branches

/-- The branches that were predicted rightly, in percent. -/
def Stats.right (s : Stats) : Float :=
  (1.0 - s.wrong / 100.0) * 100.0

/-- The counts of several runs together. -/
def Stats.sum (all : List Stats) : Stats where
  branches := (all.map (·.branches)).sum
  takenBranches := (all.map (·.takenBranches)).sum
  directionMispredictions := (all.map (·.directionMispredictions)).sum
  targetMispredictions := (all.map (·.targetMispredictions)).sum

/-- The counts of all traces are added up one after the other. -/
theorem Results.total_eq_sum (results : Results) :
    results.total = Stats.sum (results.map (·.2)) := by
  have from_ (start : Stats) : results.foldl (fun sum r => sum.merge r.2) start =
      start.merge (Stats.sum (results.map (·.2))) := by
    induction results generalizing start with
    | nil => rfl
    | cons r results ih =>
      rw [List.foldl_cons, ih]
      ext <;> exact Nat.add_assoc _ _ _
  -- nothing was counted before the first trace
  have empty (s : Stats) : Stats.empty.merge s = s := by ext <;> exact Nat.zero_add _
  exact (from_ .empty).trans (empty _)

/-! ## Reports -/

/-- A text is the report of a run under a title. -/
def ShowsReport (title : String) (s : Stats) (text : String) : Prop :=
  ∃ taken wrong right, ShowsHundredths (percentOf s.takenBranches s.branches) taken ∧
    ShowsHundredths s.wrong wrong ∧ ShowsHundredths s.right right ∧
    text =
      "==========================================================\n" ++
      "BRANCH PREDICTION: " ++ title ++ "\n" ++
      "----------------------------------------------------------\n" ++
      "Total branches: " ++ toString s.branches ++ "\n" ++
      "Taken branches: " ++ toString s.takenBranches ++ " (" ++ taken ++ "%)\n" ++
      "Direction mispredictions: " ++ toString s.directionMispredictions ++ "\n" ++
      "Target mispredictions: " ++ toString s.targetMispredictions ++ "\n" ++
      "Misprediction rate: " ++ wrong ++ "%\n" ++
      "Accuracy: " ++ right ++ "%\n" ++
      "=========================================================="

theorem showsReport_report (title : String) (s : Stats) :
    ShowsReport title s (s.report title) := by
  refine ⟨percent (s.percentage s.takenBranches), percent s.mispredictionRate,
    percent (s.accuracy * 100.0), showsHundredths_fixed _, showsHundredths_fixed _,
    showsHundredths_fixed _, ?_⟩
  have equals : rule '=' 58 = "==========================================================" := by
    decide +kernel
  have dashes : rule '-' 58 = "----------------------------------------------------------" := by
    decide +kernel
  rw [Stats.report, equals, dashes]
  simp only [String.intercalate_cons_cons, String.intercalate_singleton, String.append_assoc]
  rfl

/-! ## Tables -/

/-- A cell is a text, followed by blanks up to the width of its column. -/
def Fills (width : Nat) (text cell : String) : Prop :=
  (∃ blanks, cell = text ++ String.ofList (List.replicate blanks ' ')) ∧
    cell.length = max width text.length

/-- A line is the row of a table about a preset and a workload, with the number of branches
and the rate of wrong predictions. -/
def ShowsRow (preset workload : String) (s : Stats) (line : String) : Prop :=
  ∃ rate a b c d, ShowsHundredths s.wrong rate ∧ Fills 15 preset a ∧ Fills 14 workload b ∧
    Fills 10 (toString s.branches) c ∧ Fills 10 rate d ∧
    line = a ++ " | " ++ b ++ " | " ++ c ++ " | " ++ d

theorem fills_padRight (width : Nat) (text : String) : Fills width text (padRight width text) := by
  refine ⟨⟨width - text.length, rfl⟩, ?_⟩
  rw [padRight, rule, String.length_append, String.length_ofList, List.length_replicate]
  omega

/-- The width leaves no choice of the blanks. -/
theorem Fills.eq {width : Nat} {text cell : String} (fills : Fills width text cell) :
    cell = text ++ String.ofList (List.replicate (width - text.length) ' ') := by
  obtain ⟨⟨blanks, rfl⟩, size⟩ := fills
  rw [String.length_append, String.length_ofList, List.length_replicate] at size
  have same : blanks = width - text.length := by omega
  rw [same]

theorem showsRow_columns (preset workload : String) (s : Stats) :
    ShowsRow preset workload s
      (columns preset workload (toString s.branches) (percent s.mispredictionRate)) := by
  refine ⟨percent s.mispredictionRate, _, _, _, _, showsHundredths_fixed _, fills_padRight _ _,
    fills_padRight _ _, fills_padRight _ _, fills_padRight _ _, ?_⟩
  rw [columns]
  simp only [String.intercalate_cons_cons, String.intercalate_singleton, String.append_assoc]

/-! ## Configurations -/

/-- The names of the variants. Two of them have one for each setting of hashing. -/
inductive IsNamed : PredictorKind → Bool → String → Prop
  | btb (hashing : Bool) : IsNamed .btb hashing "btb"
  | bimodal (hashing : Bool) : IsNamed .bimodal hashing "bimodal"
  | gshareDirect : IsNamed .gshare false "gshare-direct"
  | gshareXor : IsNamed .gshare true "gshare-xor"
  | gshareFolded (hashing : Bool) : IsNamed .gshareFolded hashing "gshare-folded"
  | gshareBtb (hashing : Bool) : IsNamed .gshareBtb hashing "gshare-btb"
  | twoLevel (hashing : Bool) : IsNamed .twoLevel hashing "two-level"
  | perceptron : IsNamed .perceptron false "perceptron"
  | perceptronHashed : IsNamed .perceptron true "perceptron-hashed"

/-- A text names the variant of a configuration and its sizes. -/
def ShowsConfig (c : Config) (text : String) : Prop :=
  ∃ name, IsNamed c.kind c.useHashing name ∧
    text = name ++ " (entries=" ++ toString c.entries ++ ", history=" ++
      toString c.historyLength ++ ", btb=" ++ toString c.btbEntries ++
      (if c.targetCache = .counterIntegrated then " CounterIntegrated)" else " TargetOnly)")

theorem isNamed_label (c : Config) : IsNamed c.kind c.useHashing c.label := by
  unfold Config.label
  cases c.kind <;> cases c.useHashing <;> constructor

theorem showsConfig_display (c : Config) : ShowsConfig c c.display := by
  refine ⟨c.label, isNamed_label c, ?_⟩
  have kind : " " ++ c.targetCache.name ++ ")" =
      if c.targetCache = .counterIntegrated then " CounterIntegrated)" else " TargetOnly)" := by
    cases c.targetCache <;> decide
  rw [Config.display, ← kind]
  simp only [String.append_assoc]

/-! ## Objects -/

/-- A line is an object with the result of a run. -/
def ShowsObject (c : Config) (workload : String) (s : Stats) (line : String) : Prop :=
  ∃ rate name, Json.ShowsDouble s.wrong rate ∧ IsNamed c.kind c.useHashing name ∧
    Json.parse line = some (.ofMembers [
      ("misprediction_rate", .num rate),
      ("predictor", .ofString name),
      ("stats", .ofMembers [
        ("branches", .num (toString s.branches)),
        ("direction_mispredictions", .num (toString s.directionMispredictions)),
        ("taken_branches", .num (toString s.takenBranches)),
        ("target_mispredictions", .num (toString s.targetMispredictions))]),
      ("workload", .ofString workload)])

theorem legible_json (c : Config) (workload : String) (s : Stats) :
    (Results.json c workload s).Legible := by
  have text (t : String) : (Json.ofString t).Legible := Json.legible_of_token rfl trivial
  have number := Json.legible_ofNat
  refine Json.legible_ofMembers ?_
  simp only [List.forall_mem_cons]
  refine ⟨Json.legible_ofFloat _, text _, Json.legible_ofMembers ?_, text _, nofun⟩
  simp only [List.forall_mem_cons]
  exact ⟨number _, number _, number _, number _, nofun⟩

theorem showsObject_json (c : Config) (workload : String) (s : Stats) :
    ShowsObject c workload s (Results.json c workload s).render := by
  obtain ⟨rate, written, near⟩ := Json.exists_ofFloat s.mispredictionRate
  refine ⟨rate, c.label, near, isNamed_label c, ?_⟩
  rw [Json.parse_render (legible_json c workload s), Results.json, written]
  rfl

end BranchPrediction
