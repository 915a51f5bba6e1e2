import BranchPrediction.Command.Execution
import BranchPrediction.Proofs.Command.Contents
import BranchPrediction.Proofs.Fresh
import BranchPrediction.Proofs.Run
/-!
# Workloads do not influence each other

A command may evaluate many traces, and it evaluates each of them on a fresh unit.
What it shows for a trace is therefore what it shows for this trace alone, in
whatever company and at whatever place. The counts of all traces together do not
depend on the order of the traces, since counts are added up.

A sweep evaluates presets on workloads, as runs do. A preset and a workload have one
row in its table, with the counts that a run shows for the same preset, the same
workload and the same number of invocations. It makes no difference to these counts
whether the run is about this workload or about all of them.

## Main definitions

* `Config.counts`: the counts of a trace on a fresh unit
* `Config.heading`, `Config.resultLine`, `Config.closing`: the parts of a run
* `Config.ShowsHeading`, `Config.ShowsResult`, `Config.ShowsClosing`: what is to be found in
  these parts
* `Preset.sweepLine`: a row of a sweep

## Main results

* `renderRun_eq`: a run shows the results of its traces
* `Config.closing_perm`: the order of the traces does not matter in the end
* `sweepRows_eq`, `Preset.showsRow_sweepLine`: the rows of a sweep, and their contents
* `Command.lines_run`: a run of a preset on a workload
* `results_separate`: results are the same in all commands
-/

namespace BranchPrediction

open Decimal

/-! ## Counts -/

theorem Stats.merge_right_comm (s t v : Stats) : (s.merge t).merge v = (s.merge v).merge t := by
  ext <;> exact Nat.add_right_comm _ _ _

/-- Counts are added up in any order. -/
theorem Results.total_perm {first second : Results} (perm : first.Perm second) :
    first.total = second.total := by
  refine List.Perm.foldl_eq' perm ?_ Stats.empty
  intro t _ v _ sum
  exact Stats.merge_right_comm sum t.2 v.2

namespace Config

variable {c : Config}

/-- The counts of a trace on a fresh unit. -/
def counts (c : Config) (trace : List Branch) : Stats :=
  (PredictionUnit.fresh c).tally trace

theorem evaluate_eq (valid : c.Valid) (trace : List Branch) :
    c.evaluate trace = .ok (c.counts trace) := by
  rw [evaluate, Simulator.ofConfig_eq, (validate_eq_ok_iff c).mpr valid]
  exact congrArg (fun r => Except.ok r.1) (Simulator.run_eq (.fresh c) trace)

/-! ## The parts of a run -/

/-- What a run starts with. -/
def heading (c : Config) (json : Bool) : List String :=
  if json then [] else ["Configuration: " ++ c.display]

/-- What a run shows for a trace. -/
def resultLine (c : Config) (json : Bool) (t : NamedTrace) : String :=
  if json then (Results.json c t.1 (c.counts t.2)).render else (c.counts t.2).report t.1

/-- A line shows the counts of a trace. -/
def ShowsResult (c : Config) (json : Bool) (t : NamedTrace) (line : String) : Prop :=
  if json then ShowsObject c t.1 (c.counts t.2) line else ShowsReport t.1 (c.counts t.2) line

/-- Text starts with the configuration. -/
def ShowsHeading (c : Config) (json : Bool) (lines : List String) : Prop :=
  if json then lines = []
  else ∃ text, ShowsConfig c text ∧ lines = ["Configuration: " ++ text]

/-- Text about several traces ends with a report of all their counts. -/
def ShowsClosing (c : Config) (json : Bool) (traces : List NamedTrace) (lines : List String) :
    Prop :=
  if json = false ∧ 1 < traces.length then
    ∃ text, ShowsReport "all workloads" (.sum (traces.map fun t => c.counts t.2)) text ∧
      lines = [text]
  else lines = []

/-- The counts of named traces, each on a fresh unit. -/
def results (c : Config) (traces : List NamedTrace) : Results :=
  traces.map fun t => (t.1, c.counts t.2)

/-- What a run ends with. -/
def closing (c : Config) (json : Bool) (traces : List NamedTrace) : List String :=
  if json = false ∧ 1 < traces.length then [(c.results traces).total.report "all workloads"] else []

theorem showsResult_resultLine (c : Config) (json : Bool) (t : NamedTrace) :
    c.ShowsResult json t (c.resultLine json t) := by
  cases json with
  | true => exact showsObject_json c t.1 (c.counts t.2)
  | false => exact showsReport_report t.1 (c.counts t.2)

theorem showsHeading_heading (c : Config) (json : Bool) : c.ShowsHeading json (c.heading json) := by
  cases json with
  | true => rfl
  | false => exact ⟨c.display, showsConfig_display c, rfl⟩

theorem showsClosing_closing (c : Config) (json : Bool) (traces : List NamedTrace) :
    c.ShowsClosing json traces (c.closing json traces) := by
  have sum : (c.results traces).total = .sum (traces.map fun t => c.counts t.2) := by
    rw [Results.total_eq_sum, results, List.map_map]
    rfl
  unfold ShowsClosing closing
  split
  · exact ⟨_, showsReport_report _ _, by rw [sum]⟩
  · rfl

/-- The order of the traces does not matter in the end. -/
theorem closing_perm (c : Config) (json : Bool) {first second : List NamedTrace}
    (perm : first.Perm second) : c.closing json first = c.closing json second := by
  have total : (c.results first).total = (c.results second).total :=
    Results.total_perm (perm.map _)
  rw [closing, closing, total, perm.length_eq]

/-- A trace alone has nothing to be added up. -/
theorem closing_singleton (c : Config) (json : Bool) (t : NamedTrace) : c.closing json [t] = [] :=
  if_neg fun h => Nat.lt_irrefl 1 h.2

end Config

variable {c : Config}

theorem evaluateAll_eq (valid : c.Valid) (traces : List NamedTrace) :
    evaluateAll c traces = .ok (c.results traces) := by
  have each : (fun t : NamedTrace => do return (t.1, ← c.evaluate t.2)) =
      fun t => (pure (t.1, c.counts t.2) : Except ConfigError (String × Stats)) := by
    funext t
    rw [Config.evaluate_eq valid]
    rfl
  change traces.mapM (fun t : NamedTrace => do return (t.1, ← c.evaluate t.2)) = _
  rw [each, List.mapM_pure]
  rfl

/-- A run shows the results of its traces, each as if it were alone. -/
theorem renderRun_eq (valid : c.Valid) (traces : List NamedTrace) (json : Bool) :
    renderRun c traces json =
      .ok (c.heading json ++ traces.map (c.resultLine json) ++ c.closing json traces) := by
  rw [renderRun, evaluateAll_eq valid]
  -- only a text has a heading and an end
  cases json with
  | true =>
    have lines : (c.results traces).jsonLines c = traces.map (c.resultLine true) := by
      rw [Results.jsonLines, Config.results, List.map_map]
      rfl
    have nothing : c.closing true traces = [] := if_neg fun h => absurd h.1 (by decide)
    rw [nothing, List.append_nil]
    exact congrArg Except.ok lines
  | false =>
    have reports : (c.results traces).map (fun r => r.2.report r.1) =
        traces.map (c.resultLine false) := by
      rw [Config.results, List.map_map]
      rfl
    have last : c.closing false traces = if 1 < (c.results traces).length then
        [(c.results traces).total.report "all workloads"] else [] := by
      simp only [Config.closing, Config.results, List.length_map, true_and]
    rw [last, ← reports]
    rfl

theorem renderRun_singleton (valid : c.Valid) (t : NamedTrace) (json : Bool) :
    renderRun c [t] json = .ok (c.heading json ++ [c.resultLine json t]) := by
  rw [renderRun_eq valid, c.closing_singleton, List.append_nil]
  rfl

/-! ## Names

No two presets have the same name, whatever its case, nor do two workloads, and no
workload is called `all`. -/

theorem sameIgnoringCase_iff {s t : String} :
    sameIgnoringCase s t ↔ s.toList.map Char.toLower = t.toList.map Char.toLower := by
  rw [sameIgnoringCase, beq_iff_eq, ← String.toList_inj, String.toList_map, String.toList_map]

theorem find?_sameIgnoringCase {α : Type} {all : List α} {name : α → String}
    (distinct : (all.map fun a => (name a).toList.map Char.toLower).Nodup) {a : α}
    (listed : a ∈ all) {spelling : String} (same : sameIgnoringCase (name a) spelling) :
    (all.find? fun b => sameIgnoringCase (name b) spelling) = some a := by
  refine find?_eq_some_of_unique listed same fun b other alike => ?_
  have lower : (name b).toList.map Char.toLower = (name a).toList.map Char.toLower :=
    (sameIgnoringCase_iff.mp alike).trans (sameIgnoringCase_iff.mp same).symm
  exact List.inj_on_of_nodup_map distinct other listed lower

theorem Config.preset_eq {p : Preset} {name : String} (same : sameIgnoringCase p.name name) :
    preset name = .ok p.config := by
  have distinct : (Preset.all.map fun p => p.name.toList.map Char.toLower).Nodup := by decide
  have listed : p ∈ Preset.all := by cases p <;> decide
  rw [preset, find?_sameIgnoringCase distinct listed same]

theorem workloadsOf_all {name : String} (same : sameIgnoringCase name "all") :
    workloadsOf name = .ok Workload.all :=
  if_pos same

theorem workloadsOf_eq {w : Workload} {name : String} (same : sameIgnoringCase w.name name) :
    workloadsOf name = .ok [w] := by
  have distinct : (Workload.all.map fun w => w.name.toList.map Char.toLower).Nodup := by decide
  have listed : w ∈ Workload.all := by cases w <;> decide
  -- the name of a workload does not stand for all of them
  have single : ¬ sameIgnoringCase name "all" := by
    intro all
    have lower : w.name.toList.map Char.toLower = "all".toList.map Char.toLower :=
      (sameIgnoringCase_iff.mp same).trans (sameIgnoringCase_iff.mp all)
    revert lower
    cases w <;> decide
  rw [workloadsOf, if_neg single, Workload.ofName?, find?_sameIgnoringCase distinct listed same]

/-! ## Runs of presets and sweeps -/

theorem Preset.valid_config (p : Preset) : p.config.Valid :=
  (Config.validate_eq_ok_iff p.config).mp (by cases p <;> rfl)

/-- A workload with a number of invocations. -/
def Workload.named (w : Workload) (n : Nat) : NamedTrace :=
  (w.name, w.generate n)

/-- A run of a preset shows the results of the workloads that are meant. -/
theorem Command.lines_run {p : Preset} {preset name : String} {workloads : List Workload}
    (same : sameIgnoringCase p.name preset) (meant : workloadsOf name = .ok workloads) (n : Nat)
    (r : Reader) (json : Bool) :
    (run (.preset preset) (.workload name n) json).lines r =
      .ok (p.config.heading json ++ (workloads.map (·.named n)).map (p.config.resultLine json) ++
        p.config.closing json (workloads.map (·.named n))) := by
  have config : (ConfigSource.preset preset).resolve r = .ok p.config := by
    rw [ConfigSource.resolve, Config.preset_eq same]
    rfl
  have traces : (TraceSource.workload name n).resolve r = .ok (workloads.map (·.named n)) := by
    rw [TraceSource.resolve, meant]
    rfl
  rw [lines, config, traces]
  change (renderRun p.config (workloads.map (·.named n)) json).mapError CommandError.config = _
  rw [renderRun_eq p.valid_config]
  rfl

/-- A sweep has one row for each preset and workload, with the counts of a run. -/
theorem sweepRows_eq (n : Nat) :
    sweepRows n = .ok (Preset.all.flatMap fun p =>
      Workload.all.map fun w => ⟨p, w, p.config.counts (w.generate n)⟩) := by
  -- the traces are made once, and every preset starts afresh on each of them
  have rows (p : Preset) :
      (Workload.all.map fun w => (w, w.generate n)).mapM
          (fun t => do return SweepRow.mk p t.1 (← p.config.evaluate t.2)) =
        (pure (Workload.all.map fun w => ⟨p, w, p.config.counts (w.generate n)⟩) :
          Except ConfigError (List SweepRow)) := by
    have each : (fun t : Workload × List Branch => do
          return SweepRow.mk p t.1 (← p.config.evaluate t.2)) =
        fun t => (pure ⟨p, t.1, p.config.counts t.2⟩ : Except ConfigError SweepRow) := by
      funext t
      rw [Config.evaluate_eq p.valid_config]
      rfl
    rw [each, List.mapM_pure, List.map_map]
    rfl
  change (Preset.all.mapM fun p => (Workload.all.map fun w => (w, w.generate n)).mapM
    fun t => do return SweepRow.mk p t.1 (← p.config.evaluate t.2)) >>= _ = _
  rw [funext rows, List.mapM_pure, List.flatMap_def]
  rfl

/-- What a sweep starts with. -/
def sweepHeading : List String :=
  ["", "================================================================",
    "Predictor       | Workload       | Branches   | Mispred % ",
    "----------------------------------------------------------------"]

/-- What a sweep ends with. -/
def sweepClosing : List String :=
  ["================================================================"]

/-- The row of a preset and a workload in the table of a sweep. -/
def Preset.sweepLine (p : Preset) (t : NamedTrace) : String :=
  columns p.name t.1 (toString (p.config.counts t.2).branches)
    (percent (p.config.counts t.2).mispredictionRate)

/-- The row shows the counts of the preset for the trace. -/
theorem Preset.showsRow_sweepLine (p : Preset) (t : NamedTrace) :
    ShowsRow p.name t.1 (p.config.counts t.2) (p.sweepLine t) :=
  showsRow_columns p.name t.1 (p.config.counts t.2)

theorem Command.lines_sweep (n : Nat) (r : Reader) :
    (sweep n).lines r = .ok (sweepHeading ++
      (Preset.all.flatMap fun p => Workload.all.map fun w => p.sweepLine (w.named n)) ++
        sweepClosing) := by
  have rows : (Preset.all.flatMap fun p => Workload.all.map fun w =>
        (⟨p, w, p.config.counts (w.generate n)⟩ : SweepRow)).map SweepRow.line =
      Preset.all.flatMap fun p => Workload.all.map fun w => p.sweepLine (w.named n) := by
    simp only [List.map_flatMap, List.map_map]
    rfl
  have heading : ["", rule '=' 64, columns "Predictor" "Workload" "Branches" "Mispred %",
      rule '-' 64] = sweepHeading := by
    decide +kernel
  have closing : [rule '=' 64] = sweepClosing := by decide +kernel
  rw [lines, sweepLines, sweepRows_eq, ← rows, heading, closing]
  rfl

/-- **Results are separate.** In a run of a valid configuration the result of each
trace is what the run of this trace alone shows. Another order of the traces
permutes the results and leaves the end of the run as it is. And the row of a sweep
for a preset and a workload shows the number of branches and the rate of the counts
that a run of this preset shows for this workload with the same number of
invocations, by itself or among all.

A result shows the counts of its trace on a fresh unit: as a report, as an object or,
for the number of branches and the rate, as a row. -/
theorem results_separate :
    (∀ c : Config, c.validate = .ok () → ∀ (json : Bool) (traces : List NamedTrace),
      (∀ t, renderRun c [t] json = .ok (c.heading json ++ [c.resultLine json t])) ∧
      ∀ order : List NamedTrace, order.Perm traces →
        renderRun c order json =
          .ok (c.heading json ++ order.map (c.resultLine json) ++ c.closing json traces)) ∧
    (∀ (c : Config) (json : Bool), c.ShowsHeading json (c.heading json) ∧
      (∀ t, c.ShowsResult json t (c.resultLine json t)) ∧
      ∀ traces, c.ShowsClosing json traces (c.closing json traces)) ∧
    ∀ (n : Nat) (r : Reader),
      (Command.sweep n).lines r = .ok (sweepHeading ++
        (Preset.all.flatMap fun p => Workload.all.map fun w => p.sweepLine (w.named n)) ++
          sweepClosing) ∧
      (∀ (p : Preset) (w : Workload),
        ShowsRow p.name w.name (p.config.counts (w.generate n)) (p.sweepLine (w.named n))) ∧
      ∀ (json : Bool) (p : Preset) (preset : String), sameIgnoringCase p.name preset →
        (∀ (w : Workload) (name : String), sameIgnoringCase w.name name →
          (Command.run (.preset preset) (.workload name n) json).lines r =
            .ok (p.config.heading json ++ [p.config.resultLine json (w.named n)])) ∧
        ∀ name, sameIgnoringCase name "all" →
          (Command.run (.preset preset) (.workload name n) json).lines r =
            .ok (p.config.heading json ++
              (Workload.all.map fun w => p.config.resultLine json (w.named n)) ++
                p.config.closing json (Workload.all.map (·.named n))) := by
  refine ⟨?_, fun c json => ⟨c.showsHeading_heading json, c.showsResult_resultLine json,
    c.showsClosing_closing json⟩, fun n r => ⟨Command.lines_sweep n r,
    fun p w => p.showsRow_sweepLine (w.named n), ?_⟩⟩
  · intro c accepted json traces
    have valid := (Config.validate_eq_ok_iff c).mp accepted
    refine ⟨fun t => renderRun_singleton valid t json, ?_⟩
    intro order perm
    rw [renderRun_eq valid, c.closing_perm json perm]
  · intro json p preset same
    constructor
    · intro w name meant
      rw [Command.lines_run same (workloadsOf_eq meant)]
      have nothing : p.config.closing json [w.named n] = [] := p.config.closing_singleton json _
      rw [List.map_singleton, nothing, List.append_nil]
      rfl
    · intro name meant
      rw [Command.lines_run same (workloadsOf_all meant), List.map_map]
      rfl

/-- Two workloads in either order, and a preset and workloads in other spellings. The row of
a preset without direction predictor shows 66 wrong predictions among 128, as the report
does. -/
theorem results_separate_swapped :
    Config.default.validate = .ok () ∧
      [Workload.switch.named 5, Workload.random.named 3].Perm
        [Workload.random.named 3, Workload.switch.named 5] ∧
      renderRun .default [Workload.switch.named 5, Workload.random.named 3] false =
        .ok (Config.default.heading false ++
          [Workload.switch.named 5, Workload.random.named 3].map
            (Config.default.resultLine false) ++
          Config.default.closing false [Workload.random.named 3, Workload.switch.named 5]) ∧
      (∃ rate cell, ShowsHundredths (percentOf 66 128) rate ∧ Fills 10 rate cell ∧
        Preset.btb.sweepLine (Workload.switch.named 1) =
          "btb             | switch         | 128        | " ++ cell) ∧
      ShowsReport "switch" ⟨128, 127, 3, 63⟩
        (Preset.btb.config.resultLine false (Workload.switch.named 1)) ∧
      sameIgnoringCase Preset.perceptronPlain.name "PER-T" ∧
      sameIgnoringCase Workload.random.name "Random" ∧ sameIgnoringCase "ALL" "all" ∧
      (Command.run (.preset "PER-T") (.workload "Random" 3) true).lines
          ⟨fun _ => .error .notFound⟩ =
        .ok (Preset.perceptronPlain.config.heading true ++
          [Preset.perceptronPlain.config.resultLine true (Workload.random.named 3)]) ∧
      (Command.run (.preset "PER-T") (.workload "ALL" 3) true).lines
          ⟨fun _ => .error .notFound⟩ =
        .ok (Preset.perceptronPlain.config.heading true ++
          (Workload.all.map fun w =>
            Preset.perceptronPlain.config.resultLine true (w.named 3)) ++
          Preset.perceptronPlain.config.closing true (Workload.all.map (·.named 3))) := by
  obtain ⟨renders, contents, commands⟩ := results_separate
  have swapped : [Workload.switch.named 5, Workload.random.named 3].Perm
      [Workload.random.named 3, Workload.switch.named 5] := List.Perm.swap _ _ []
  have preset : sameIgnoringCase Preset.perceptronPlain.name "PER-T" :=
    sameIgnoringCase_iff.mpr (by decide)
  have workload : sameIgnoringCase Workload.random.name "Random" :=
    sameIgnoringCase_iff.mpr (by decide)
  have all : sameIgnoringCase "ALL" "all" := sameIgnoringCase_iff.mpr (by decide)
  obtain ⟨single, together⟩ := (commands 3 ⟨fun _ => .error .notFound⟩).2.2 true
    .perceptronPlain "PER-T" preset
  have counts : Preset.btb.config.counts (Workload.switch.generate 1) = ⟨128, 127, 3, 63⟩ := by
    decide +kernel
  have row : ShowsRow "btb" "switch" ⟨128, 127, 3, 63⟩
      (Preset.btb.sweepLine (Workload.switch.named 1)) :=
    counts ▸ (commands 1 ⟨fun _ => .error .notFound⟩).2.1 .btb .switch
  have report : ShowsReport "switch" ⟨128, 127, 3, 63⟩
      (Preset.btb.config.resultLine false (Workload.switch.named 1)) :=
    counts ▸ (contents Preset.btb.config false).2.1 (Workload.switch.named 1)
  refine ⟨rfl, swapped, (renders .default rfl false _).2 _ swapped, ?_, report, preset, workload,
    all, single .random "Random" workload, together "ALL" all⟩
  obtain ⟨rate, _, _, _, cell, shown, first, second, third, fourth, line⟩ := row
  refine ⟨rate, cell, shown, fourth, ?_⟩
  have cells : "btb             | switch         | 128        | " =
      "btb" ++ String.ofList (List.replicate (15 - "btb".length) ' ') ++ " | " ++
        ("switch" ++ String.ofList (List.replicate (14 - "switch".length) ' ')) ++ " | " ++
        (toString 128 ++ String.ofList (List.replicate (10 - (toString 128).length) ' ')) ++
        " | " := by
    decide +kernel
  rw [line, first.eq, second.eq, third.eq, cells]

end BranchPrediction
