import BranchPrediction.Proofs.Coding.Traces
import BranchPrediction.Proofs.Command.SeparateRuns
/-!
# Commands succeed or fail as a whole

The inputs of a run may be missing or wrong. For every source of a configuration and of
traces this module says what it gives and for what reasons it is rejected, and shows
that one of the two is the case. Inputs are settled in order: traces are not looked at
before there is a configuration.

After that nothing is left that could fail. A configuration is valid wherever it comes
from, since files are validated when they are loaded and presets are valid, and a valid
configuration has a simulator and can be evaluated on any traces. Therefore a command
has written nothing when it fails. When it succeeds its result is complete: there is a
report or an object with the counts of each trace, or a row for each preset and workload.

## Main definitions

* `ConfigSource.Gives`, `ConfigSource.Rejected`: what becomes of a source
* `TraceSource.Gives`, `TraceSource.Rejected`: the same for traces
* `Command.Shows`, `Command.Fails`: the complete result of a command, or its failure

## Main results

* `ConfigSource.valid_of_resolve`: only valid configurations are used
* `Command.shows_or_fails`: there is no third way
* `Command.all_or_nothing`: the outcomes of commands
-/

namespace BranchPrediction

variable {r : Reader}

/-! ## Names -/

theorem Config.preset_eq_error {name : String}
    (unknown : ∀ p : Preset, ¬sameIgnoringCase p.name name) :
    preset name = .error (.unknownPreset name) := by
  have none : Preset.all.find? (fun p => sameIgnoringCase p.name name) = none :=
    List.find?_eq_none.mpr fun p _ => unknown p
  rw [preset, none]

theorem Config.valid_of_preset {name : String} {c : Config} (named : preset name = .ok c) :
    c.Valid := by
  unfold preset at named
  split at named
  · next p _ =>
    obtain rfl := Except.ok.inj named
    exact p.valid_config
  · cases named

theorem workloadsOf_eq_error {name : String} (single : ¬sameIgnoringCase name "all")
    (unknown : ∀ w : Workload, ¬sameIgnoringCase w.name name) :
    workloadsOf name = .error (.unknownWorkload name) := by
  have none : Workload.ofName? name = none := List.find?_eq_none.mpr fun w _ => unknown w
  rw [workloadsOf, if_neg single, none]

/-! ## Files -/

namespace Reader

variable {path text : String} {reason : ReadError}

theorem config_of_text (held : r.text path = .ok text) : r.config path = Config.ofJson text := by
  rw [config, load, held]
  rfl

theorem config_of_error (failed : r.text path = .error reason) :
    r.config path = .error (.unreadable path reason) := by
  rw [config, load, failed]
  rfl

theorem trace_of_text (held : r.text path = .ok text) : r.trace path = traceOfJson text := by
  rw [trace, load, held]
  rfl

theorem trace_of_error (failed : r.text path = .error reason) :
    r.trace path = .error (.unreadable path reason) := by
  rw [trace, load, failed]
  rfl

end Reader

/-! ## Sources of configurations -/

namespace ConfigSource

/-- The configuration that a source gives. -/
inductive Gives (r : Reader) : ConfigSource → Config → Prop
  | default : Gives r default Config.default
  | file {path text : String} {c : Config} : r.text path = .ok text →
      Coding.config.read? text = some c → c.validate = .ok () → Gives r (file path) c
  | preset {name : String} {p : Preset} : sameIgnoringCase p.name name →
      Gives r (preset name) p.config

/-- The reasons to reject a source. -/
inductive Rejected (r : Reader) : ConfigSource → CommandError → Prop
  | unreadable {path : String} {reason : ReadError} : r.text path = .error reason →
      Rejected r (file path) (.load (.unreadable path reason))
  | malformed {path text : String} : r.text path = .ok text →
      Coding.config.read? text = none → Rejected r (file path) (.load .malformed)
  | invalid {path text : String} {c : Config} {e : ConfigError} : r.text path = .ok text →
      Coding.config.read? text = some c → c.validate = .error e →
      Rejected r (file path) (.load (.config e))
  | unknown {name : String} : (∀ p : Preset, ¬sameIgnoringCase p.name name) →
      Rejected r (preset name) (.config (.unknownPreset name))

variable {source : ConfigSource} {c : Config}

theorem Gives.resolve (gives : source.Gives r c) : source.resolve r = .ok c := by
  cases gives with
  | default => rfl
  | file held read valid =>
    have loaded := (Config.ofJson_of_read? read).1.mpr valid
    rw [ConfigSource.resolve, Reader.config_of_text held, loaded]
    rfl
  | preset same =>
    rw [ConfigSource.resolve, Config.preset_eq same]
    rfl

theorem Rejected.resolve {e : CommandError} (rejected : source.Rejected r e) :
    source.resolve r = .error e := by
  cases rejected with
  | unreadable failed =>
    rw [ConfigSource.resolve, Reader.config_of_error failed]
    rfl
  | malformed held read =>
    rw [ConfigSource.resolve, Reader.config_of_text held, Config.ofJson, read]
    rfl
  | invalid held read checked =>
    have refused := ((Config.ofJson_of_read? read).2 _).mpr checked
    rw [ConfigSource.resolve, Reader.config_of_text held, refused]
    rfl
  | unknown unknown =>
    rw [ConfigSource.resolve, Config.preset_eq_error unknown]
    rfl

theorem gives_or_rejected (r : Reader) (source : ConfigSource) :
    (∃ c, source.Gives r c) ∨ ∃ e, source.Rejected r e := by
  cases source with
  | default => exact .inl ⟨_, .default⟩
  | file path =>
    cases held : r.text path with
    | error reason => exact .inr ⟨_, .unreadable held⟩
    | ok text =>
      cases read : Coding.config.read? text with
      | none => exact .inr ⟨_, .malformed held read⟩
      | some c =>
        cases checked : c.validate with
        | error e => exact .inr ⟨_, .invalid held read checked⟩
        | ok _ => exact .inl ⟨c, .file held read checked⟩
  | preset name =>
    by_cases known : ∃ p : Preset, sameIgnoringCase p.name name
    · obtain ⟨p, same⟩ := known
      exact .inl ⟨p.config, .preset same⟩
    · exact .inr ⟨_, .unknown fun p same => known ⟨p, same⟩⟩

/-- A given configuration is valid. -/
theorem Gives.valid (gives : source.Gives r c) : c.Valid := by
  cases gives with
  | default => exact (Config.validate_eq_ok_iff .default).mp rfl
  | file _ _ valid => exact (Config.validate_eq_ok_iff c).mp valid
  | preset _ => exact Preset.valid_config _

/-- Only valid configurations are used. -/
theorem valid_of_resolve (resolved : source.resolve r = .ok c) : c.Valid := by
  rcases gives_or_rejected r source with ⟨given, gives⟩ | ⟨e, rejected⟩
  · obtain rfl : c = given := Except.ok.inj (resolved.symm.trans gives.resolve)
    exact gives.valid
  · rw [rejected.resolve] at resolved
    cases resolved

end ConfigSource

/-! ## Sources of traces -/

namespace TraceSource

/-- The named traces that a source gives. -/
inductive Gives (r : Reader) : TraceSource → List NamedTrace → Prop
  | file {path text : String} {trace : List Branch} : r.text path = .ok text →
      Coding.trace.read? text = some trace → Gives r (file path) [(path, trace)]
  | all {name : String} (n : Nat) : sameIgnoringCase name "all" →
      Gives r (workload name n) (Workload.all.map (·.named n))
  | single {name : String} {w : Workload} (n : Nat) : sameIgnoringCase w.name name →
      Gives r (workload name n) [w.named n]

/-- The reasons to reject a source. -/
inductive Rejected (r : Reader) : TraceSource → CommandError → Prop
  | unreadable {path : String} {reason : ReadError} : r.text path = .error reason →
      Rejected r (file path) (.load (.unreadable path reason))
  | malformed {path text : String} : r.text path = .ok text →
      Coding.trace.read? text = none → Rejected r (file path) (.load .malformed)
  | unknown {name : String} (n : Nat) : ¬sameIgnoringCase name "all" →
      (∀ w : Workload, ¬sameIgnoringCase w.name name) →
      Rejected r (workload name n) (.unknownWorkload name)

variable {source : TraceSource}

theorem Gives.resolve {traces : List NamedTrace} (gives : source.Gives r traces) :
    source.resolve r = .ok traces := by
  cases gives with
  | file held read =>
    rw [TraceSource.resolve, Reader.trace_of_text held, traceOfJson, read]
    rfl
  | all _ same =>
    rw [TraceSource.resolve, workloadsOf_all same]
    rfl
  | single _ same =>
    rw [TraceSource.resolve, workloadsOf_eq same]
    rfl

theorem Rejected.resolve {e : CommandError} (rejected : source.Rejected r e) :
    source.resolve r = .error e := by
  cases rejected with
  | unreadable failed =>
    rw [TraceSource.resolve, Reader.trace_of_error failed]
    rfl
  | malformed held read =>
    rw [TraceSource.resolve, Reader.trace_of_text held, traceOfJson, read]
    rfl
  | unknown _ single unknown =>
    rw [TraceSource.resolve, workloadsOf_eq_error single unknown]
    rfl

theorem gives_or_rejected (r : Reader) (source : TraceSource) :
    (∃ traces, source.Gives r traces) ∨ ∃ e, source.Rejected r e := by
  cases source with
  | workload name n =>
    by_cases all : sameIgnoringCase name "all"
    · exact .inl ⟨_, .all n all⟩
    · by_cases known : ∃ w : Workload, sameIgnoringCase w.name name
      · obtain ⟨w, same⟩ := known
        exact .inl ⟨_, .single n same⟩
      · exact .inr ⟨_, .unknown n all fun w same => known ⟨w, same⟩⟩
  | file path =>
    cases held : r.text path with
    | error reason => exact .inr ⟨_, .unreadable held⟩
    | ok text =>
      cases read : Coding.trace.read? text with
      | none => exact .inr ⟨_, .malformed held read⟩
      | some trace => exact .inl ⟨_, .file held read⟩

end TraceSource

/-! ## Commands -/

namespace Command

/-- The complete result of a command. A run shows each of its traces, and a sweep has a row
for each preset and workload. -/
inductive Shows (r : Reader) : Command → List String → Prop
  | run {config : ConfigSource} {source : TraceSource} {c : Config} {traces : List NamedTrace}
      {heading results closing : List String} (json : Bool) : config.Gives r c →
      source.Gives r traces → c.ShowsHeading json heading →
      List.Forall₂ (c.ShowsResult json) traces results → c.ShowsClosing json traces closing →
      Shows r (run config source json) (heading ++ results ++ closing)
  | sweep (n : Nat) {rows : List String} :
      List.Forall₂ (fun (p, w) => ShowsRow p.name w.name (p.config.counts (w.generate n)))
        (Preset.all.flatMap fun p => Workload.all.map fun w => (p, w)) rows →
      Shows r (sweep n) (sweepHeading ++ rows ++ sweepClosing)
  | version : Shows r version ["bpsim 0.3.0"]

/-- The failures of a command. Traces are at fault only if the configuration is not. -/
inductive Fails (r : Reader) : Command → CommandError → Prop
  | config {config : ConfigSource} {e : CommandError} (source : TraceSource) (json : Bool) :
      config.Rejected r e → Fails r (run config source json) e
  | traces {config : ConfigSource} {source : TraceSource} {c : Config} {e : CommandError}
      (json : Bool) : config.Gives r c → source.Rejected r e → Fails r (run config source json) e

variable {command : Command}

/-- A run of given inputs. -/
theorem lines_run_of_gives {config : ConfigSource} {source : TraceSource} {c : Config}
    {traces : List NamedTrace} (given : config.Gives r c) (traced : source.Gives r traces)
    (json : Bool) :
    (run config source json).lines r =
      .ok (c.heading json ++ traces.map (c.resultLine json) ++ c.closing json traces) := by
  rw [lines, given.resolve, traced.resolve]
  -- both inputs are settled, and a given configuration is valid
  change (renderRun c traces json).mapError CommandError.config = _
  rw [renderRun_eq given.valid]
  rfl

/-- A run of given inputs shows all of them. -/
theorem shows_run {config : ConfigSource} {source : TraceSource} {c : Config}
    {traces : List NamedTrace} (given : config.Gives r c) (traced : source.Gives r traces)
    (json : Bool) :
    (run config source json).Shows r
      (c.heading json ++ traces.map (c.resultLine json) ++ c.closing json traces) := by
  refine .run json given traced (c.showsHeading_heading json) ?_ (c.showsClosing_closing json traces)
  rw [List.forall₂_map_right_iff, List.forall₂_same]
  exact fun t _ => c.showsResult_resultLine json t

/-- A sweep shows all presets and workloads. -/
theorem shows_sweep (r : Reader) (n : Nat) :
    (sweep n).Shows r (sweepHeading ++
      (Preset.all.flatMap fun p => Workload.all.map fun w => p.sweepLine (w.named n)) ++
        sweepClosing) := by
  have rows : (Preset.all.flatMap fun p => Workload.all.map fun w => p.sweepLine (w.named n)) =
      (Preset.all.flatMap fun p => Workload.all.map fun w => (p, w)).map
        fun (p, w) => p.sweepLine (w.named n) := by
    simp only [List.map_flatMap, List.map_map]
    rfl
  rw [rows]
  refine .sweep n ?_
  rw [List.forall₂_map_right_iff, List.forall₂_same]
  exact fun (p, w) _ => p.showsRow_sweepLine (w.named n)

theorem Fails.lines {e : CommandError} (fails : command.Fails r e) :
    command.lines r = .error e := by
  cases fails with
  | config _ _ rejected =>
    -- the traces are never asked for
    rw [Command.lines, rejected.resolve]
    rfl
  | traces _ config rejected =>
    rw [Command.lines, config.resolve, rejected.resolve]
    rfl

/-- There is no third way. -/
theorem shows_or_fails (r : Reader) (command : Command) :
    (∃ shown, command.lines r = .ok shown ∧ command.Shows r shown) ∨ ∃ e, command.Fails r e := by
  cases command with
  | run config source json =>
    rcases config.gives_or_rejected r with ⟨c, given⟩ | ⟨e, rejected⟩
    · rcases source.gives_or_rejected r with ⟨traces, traced⟩ | ⟨e, rejected⟩
      · exact .inl ⟨_, lines_run_of_gives given traced json, shows_run given traced json⟩
      · exact .inr ⟨e, .traces json given rejected⟩
    · exact .inr ⟨e, .config source json rejected⟩
  | sweep n => exact .inl ⟨_, lines_sweep n r, shows_sweep r n⟩
  | version => exact .inl ⟨_, rfl, .version⟩

theorem execute_of_lines {shown : List String} (written : command.lines r = .ok shown) :
    command.execute r = ⟨0, String.join (shown.map (· ++ "\n")), ""⟩ := by
  rw [execute, written]

theorem Fails.execute {e : CommandError} (fails : command.Fails r e) :
    command.execute r = ⟨1, "", "Error: " ++ e.message ++ "\n"⟩ := by
  rw [Command.execute, fails.lines]

/-- **Commands succeed or fail as a whole.** Whatever the files are, a command either
exits with zero and has written its complete result and no message, or it exits with
one and has written one message and nothing else. It exits with one exactly if the
configuration is rejected, or if the configuration is given and the traces are
rejected. A sweep never fails. Every configuration that comes from a source or a preset
passes the checks, has a simulator, and can be shown on any traces. -/
theorem all_or_nothing (r : Reader) :
    (∀ command : Command,
      ((∃ shown, command.Shows r shown ∧
          command.execute r = ⟨0, String.join (shown.map (· ++ "\n")), ""⟩) ∨
        ∃ e, command.Fails r e ∧
          command.execute r = ⟨1, "", "Error: " ++ e.message ++ "\n"⟩) ∧
      ((command.execute r).exit = 1 ↔ ∃ e, command.Fails r e)) ∧
    (∀ n, ((sweep n).execute r).exit = 0) ∧
    ∀ c : Config, (∃ source : ConfigSource, source.resolve r = .ok c) ∨
        (∃ name, Config.preset name = .ok c) →
      c.validate = .ok () ∧ (∃ s, Simulator.ofConfig c = .ok s) ∧
        ∀ traces json, ∃ shown, renderRun c traces json = .ok shown := by
  refine ⟨fun command => ⟨?_, ?_⟩, fun n => ?_, fun c origin => ?_⟩
  · rcases command.shows_or_fails r with ⟨shown, written, complete⟩ | ⟨e, fails⟩
    · exact .inl ⟨shown, complete, execute_of_lines written⟩
    · exact .inr ⟨e, fails, fails.execute⟩
  · constructor
    · -- a complete result comes with zero
      intro one
      rcases command.shows_or_fails r with ⟨shown, written, -⟩ | fails
      · rw [execute_of_lines written] at one
        cases one
      · exact fails
    · rintro ⟨e, fails⟩
      rw [fails.execute]
  · rw [execute_of_lines (lines_sweep n r)]
  · -- the checks that follow were passed when the configuration was settled
    have valid : c.Valid := by
      rcases origin with ⟨source, resolved⟩ | ⟨name, named⟩
      · exact ConfigSource.valid_of_resolve resolved
      · exact Config.valid_of_preset named
    have accepted := (Config.validate_eq_ok_iff c).mpr valid
    refine ⟨accepted, ⟨.fresh c, ?_⟩, fun traces json => ⟨_, renderRun_eq valid traces json⟩⟩
    rw [Simulator.ofConfig_eq, accepted]
    rfl

/-- A single file, which leaves all fields of the configuration to their defaults. -/
def plainFile : Reader :=
  .ofFile "plain.json" "\x7b\x7d"

theorem gives_plainFile : (ConfigSource.file "plain.json").Gives plainFile .default :=
  .file (Reader.text_ofFile _ _) (by decide +kernel) rfl

/-- Two runs with the same configuration, one of a trace that is not there. -/
theorem all_or_nothing_plainFile :
    parse ["run", "-c", "plain.json", "-w", "SWITCH", "-i", "2", "--json"] =
        some (run (.file "plain.json") (.workload "SWITCH" 2) true) ∧
      (∃ shown, (run (.file "plain.json") (.workload "SWITCH" 2) true).Shows plainFile shown ∧
        (run (.file "plain.json") (.workload "SWITCH" 2) true).execute plainFile =
          ⟨0, String.join (shown.map (· ++ "\n")), ""⟩) ∧
      parse ["run", "--config=plain.json", "-tlost.json"] =
        some (run (.file "plain.json") (.file "lost.json") false) ∧
      ((run (.file "plain.json") (.file "lost.json") false).execute plainFile).exit = 1 ∧
      parse ["sweep", "-i", "3"] = some (sweep 3) ∧ ((sweep 3).execute plainFile).exit = 0 ∧
      (ConfigSource.file "plain.json").resolve plainFile = .ok .default ∧
      Config.preset "PER-B" = .ok Preset.perceptronHashed.config ∧
      (∃ shown, renderRun .default [Workload.switch.named 2] true = .ok shown) ∧
      ∃ s, Simulator.ofConfig Preset.perceptronHashed.config = .ok s := by
  obtain ⟨outcomes, sweeps, configs⟩ := all_or_nothing plainFile
  have resolved := gives_plainFile.resolve
  have preset : Config.preset "PER-B" = .ok Preset.perceptronHashed.config :=
    Config.preset_eq (sameIgnoringCase_iff.mpr (by decide))
  have workload : sameIgnoringCase Workload.switch.name "SWITCH" :=
    sameIgnoringCase_iff.mpr (by decide)
  refine ⟨by decide +kernel, ?_, by decide +kernel, ?_, by decide +kernel, sweeps 3, resolved,
    preset, (configs _ (.inl ⟨_, resolved⟩)).2.2 _ true, (configs _ (.inr ⟨_, preset⟩)).2.1⟩
  · rcases (outcomes (run (.file "plain.json") (.workload "SWITCH" 2) true)).1 with
      complete | ⟨e, fails, -⟩
    · exact complete
    · have written := lines_run_of_gives gives_plainFile (.single 2 workload) true
      cases written.symm.trans fails.lines
  · exact (outcomes _).2.mpr ⟨_, .traces false gives_plainFile (.unreadable rfl)⟩

end Command

end BranchPrediction
