import Mathlib.Algebra.BigOperators.Group.Finset.Piecewise
import Mathlib.Algebra.Order.BigOperators.Group.Finset
import BranchPrediction.Proofs.Counters.Consultation
import BranchPrediction.Proofs.Counters.Mistakes
/-!
# The mistakes of a table of counters

When every branch trains the counter it consulted, the consultations of one cell
are the mistakes and the training of one counter, however branches that consult
other cells come in between. The bound for one counter then adds up over the
cells that a trace consulted, whatever the table held before.

## Main definitions

* `Consultation.cells`: the consulted cells of a trace
* `MistakeBound`: the bound for a trace, cell by cell and in total

## Main results

* `CounterUse.Lawful.mistakesAt_replay`: a cell errs like its counter
* `CounterUse.Lawful.mistakeBound`: the bound for every lawful use
* `mistakeBound_after`: the bound for the predictors of a configuration
-/

namespace BranchPrediction

namespace Consultation

/-- The cells that were consulted. -/
def cells (log : List Consultation) : Finset Nat :=
  (log.map (·.cell)).toFinset

theorem mem_cells {log : List Consultation} {r : Consultation} (logged : r ∈ log) :
    r.cell ∈ cells log :=
  List.mem_toFinset.mpr (List.mem_map_of_mem logged)

/-- Wrong predictions are counted cell by cell. -/
theorem countP_wrong_eq_sum (log : List Consultation) {s : Finset Nat}
    (covers : ∀ r ∈ log, r.cell ∈ s) : log.countP wrong = ∑ i ∈ s, mistakesAt log i := by
  induction log with
  | nil => exact (Finset.sum_eq_zero fun _ _ => rfl).symm
  | cons r log ih =>
    have rest := ih fun r' logged => covers r' (List.mem_cons_of_mem r logged)
    -- the first consultation counts in its own cell only
    have first : ∀ i, mistakesAt (r :: log) i =
        mistakesAt log i + if r.cell = i then (if r.wrong then 1 else 0) else 0 := by
      intro i
      by_cases same : r.cell = i
      · rw [if_pos same, mistakesAt, atCell_cons_self log same, List.countP_cons, mistakesAt]
      · rw [if_neg same, mistakesAt, atCell_cons_of_ne log same, Nat.add_zero, mistakesAt]
    rw [List.countP_cons, rest, Finset.sum_congr rfl fun i _ => first i,
      Finset.sum_add_distrib, Finset.sum_ite_eq, if_pos (covers r List.mem_cons_self)]

end Consultation

open Consultation

/-- The mistakes that counters of `bits` bits may make over a trace. A counter
that was consulted about both outcomes is charged twice for each occurrence of
the rarer one. -/
structure MistakeBound (bits : Nat) (log : List Consultation) : Prop where
  /-- All consulted counters together. -/
  total_le : log.countP wrong ≤
    ∑ i ∈ cells log, (2 ^ (bits - 1) +
      2 * min ((outcomesAt log i).count true) ((outcomesAt log i).count false))
  /-- A single counter. -/
  cell_le : ∀ i, mistakesAt log i ≤
    2 ^ (bits - 1) + 2 * min ((outcomesAt log i).count true) ((outcomesAt log i).count false)
  /-- A counter that was consulted about one outcome only. -/
  steady_le : ∀ i outcome, (∀ o ∈ outcomesAt log i, o = outcome) →
    mistakesAt log i ≤ 2 ^ (bits - 1)

/-- A bound for the single counters is a bound for the table. -/
theorem MistakeBound.of_cells {bits : Nat} {log : List Consultation}
    (cell_le : ∀ i, mistakesAt log i ≤ 2 ^ (bits - 1) +
      2 * min ((outcomesAt log i).count true) ((outcomesAt log i).count false)) :
    MistakeBound bits log where
  total_le := by
    rw [countP_wrong_eq_sum log fun _ => mem_cells]
    exact Finset.sum_le_sum fun i _ => cell_le i
  cell_le := cell_le
  steady_le i outcome steady := by
    have absent : (outcomesAt log i).count (!outcome) = 0 := by
      refine List.count_eq_zero.mpr fun member => ?_
      have := steady _ member
      cases outcome <;> cases this
    have bound := cell_le i
    cases outcome with
    | true =>
      rw [Bool.not_true] at absent
      omega
    | false =>
      rw [Bool.not_false] at absent
      omega

namespace CounterUse.Lawful

variable {σ : Type} {m : CounterUse σ} {bits : Nat} {Inv : σ → Prop}

/-- A cell errs like its counter does on the outcomes of the branches that
consulted it. -/
theorem mistakesAt_replay (lawful : m.Lawful bits Inv) (consistent : m.TrainsConsulted Inv)
    {p : σ} (inv : Inv p) (trace : List Branch) (i : Nat) :
    mistakesAt (m.replay p trace) i =
      ((m.counters p).get i).mistakes (outcomesAt (m.replay p trace) i) := by
  induction trace generalizing p with
  | nil => rfl
  | cons br trace ih =>
    have later := ih (lawful.update inv br)
    have trains := consistent inv br
    rw [lawful.get_update inv, trains] at later
    -- the counter of the cell was trained by this branch or is as it was
    rw [replay, mistakesAt, outcomesAt]
    by_cases same : m.consulted p br.pc = i
    · rw [if_pos same] at later
      rw [atCell_cons_self _ same, List.countP_cons, List.map_cons, Counter.mistakes]
      change mistakesAt _ i + _ = _ + Counter.mistakes _ (outcomesAt _ i)
      rw [later, wrong, lawful.predict_eq, same, Nat.add_comm]
      congr 1
      -- both count the prediction of the consulted counter
      cases ((m.counters p).get i).predictsTaken <;> cases br.taken <;> rfl
    · rw [if_neg same] at later
      rw [atCell_cons_of_ne _ same]
      exact later

/-- The bound holds from every state that the invariant covers. -/
theorem mistakeBound (lawful : m.Lawful bits Inv) (consistent : m.TrainsConsulted Inv)
    (wide : 0 < bits) {p : σ} (inv : Inv p) (trace : List Branch) :
    MistakeBound bits (m.replay p trace) := by
  refine .of_cells fun i => ?_
  rw [lawful.mistakesAt_replay consistent inv]
  exact (lawful.within inv i).mistakes_le wide _

end CounterUse.Lawful

/-- **The mistakes of the counter tables.** A bimodal predictor, a global
predictor that shifts last and a two-level predictor keep to the bound of their
counters, from every state that they reach and over every trace. -/
theorem mistakeBound_after {c : Config} (accepted : c.validate = .ok ()) :
    (∃ p, Bimodal.ofConfig c = .ok p ∧ ∀ first second : List Branch,
      MistakeBound c.counterBits
        (Bimodal.counterUse.replay (first.foldl Bimodal.update p) second)) ∧
    (∀ scheme, ∃ p, GShare.withScheme c scheme .shiftLast = .ok p ∧
      ∀ first second : List Branch, MistakeBound c.counterBits
        (GShare.counterUse.replay (first.foldl GShare.update p) second)) ∧
    ∃ p, TwoLevel.ofConfig c = .ok p ∧ ∀ first second : List Branch,
      MistakeBound c.counterBits
        (TwoLevel.counterUse.replay (first.foldl TwoLevel.update p) second) := by
  have valid := (Config.validate_eq_ok_iff c).mp accepted
  have wide := valid.counterBits_pos
  refine ⟨⟨.fresh c, ?_, fun first second => ?_⟩,
    fun scheme => ⟨.fresh c scheme .shiftLast, ?_, fun first second => ?_⟩,
    ⟨.fresh c, ?_, fun first second => ?_⟩⟩
  · rw [Bimodal.ofConfig_eq, accepted]
    rfl
  · have lawful := Bimodal.lawful_counterUse c
    exact lawful.mistakeBound (Bimodal.trainsConsulted c) wide
      (lawful.foldl (Bimodal.sound_fresh valid) first) second
  · rw [GShare.withScheme_eq, accepted]
    rfl
  · have lawful := GShare.lawful_counterUse valid .shiftLast
    exact lawful.mistakeBound (GShare.trainsConsulted c) wide
      (lawful.foldl ⟨GShare.sound_fresh valid scheme .shiftLast, rfl⟩ first) second
  · rw [TwoLevel.ofConfig_eq, accepted]
    rfl
  · have lawful := TwoLevel.lawful_counterUse valid
    exact lawful.mistakeBound (TwoLevel.trainsConsulted c) wide
      (lawful.foldl (TwoLevel.sound_fresh valid) first) second

/-- A single counter of two bits. -/
def oneCounter : Config :=
  { kind := .bimodal, entries := 1, counterBits := 2 }

/-- A branch with given outcomes. -/
def repeated (outcomes : List Bool) : List Branch :=
  outcomes.map fun taken => ⟨.ofNat 0x1000, .ofNat 0x40, taken⟩

/-- A saturated counter that is led back and forth makes all the mistakes it may
make. -/
theorem mistakeBound_after_attained :
    oneCounter.validate = .ok () ∧ ∃ p, Bimodal.ofConfig oneCounter = .ok p ∧
      ∃ log, log = Bimodal.counterUse.replay ((repeated [true]).foldl Bimodal.update p)
          (repeated [false, false, true, false, true, false]) ∧
        MistakeBound 2 log ∧ log.countP wrong = 6 ∧
        ∑ i ∈ cells log, (2 ^ (2 - 1) +
          2 * min ((outcomesAt log i).count true) ((outcomesAt log i).count false)) = 6 := by
  obtain ⟨⟨p, built, bound⟩, -, -⟩ := mistakeBound_after (c := oneCounter) rfl
  refine ⟨rfl, p, built, _, rfl, bound _ _, ?_, ?_⟩
  · cases built
    decide
  · cases built
    decide

end BranchPrediction
