import BranchPrediction.Proofs.Isolation.SlotView
import BranchPrediction.Proofs.Recall.Outcomes
import BranchPrediction.Proofs.Steady.Counters
/-!
# Counters told from the trace

What a fresh predictor with a history has learnt can be told from the branches
that resolved, without its states. The global history is the record of all
outcomes, and the history of a slot is the record of the outcomes of its
branches. Each counter started out weakly taken and was trained with the
outcomes of the branches that selected it, and whether a branch did so is told
from the branches before it.

The global predictor selects by address and history, and its shift order says
whether the history contains the outcome that trains. The local predictor keeps
the histories of different slots apart, and branches of all slots meet in the
counters.

## Main definitions

* `Counter.trainedWith`: what some outcomes make of a fresh counter
* `GShare.historyAt`, `GShare.trainedAt`: global histories and outcomes told from a trace
* `TwoLevel.recalled`, `TwoLevel.trainedAt`: local histories and outcomes told from a trace

## Main results

* `GShare.counterAt_eq_trainedWith`: the global predictor
* `TwoLevel.counterOf_eq_trainedWith`: the local predictor
-/

namespace BranchPrediction

/-- A weakly taken counter that was trained with some outcomes, the first one first. -/
def Counter.trainedWith (bits : Nat) (outcomes : List Bool) : Counter :=
  outcomes.foldl train (weaklyTaken bits)

/-! ## Global history -/

namespace GShare

/-- The history under which a branch trains after some other branches. -/
def historyAt (len : Nat) (order : ShiftOrder) (past : List Branch) (br : Branch) : History :=
  match order with
  | .shiftFirst => .recorded len ((past ++ [br]).map (·.taken))
  | .shiftLast => .recorded len (past.map (·.taken))

/-- The outcomes of the branches that train the counter in a cell. -/
def trainedAt (c : Config) (scheme : IndexScheme) (order : ShiftOrder) (trace : List Branch)
    (cell : Nat) : List Bool :=
  outcomesWhere (fun past br =>
    scheme.index br.pc (historyAt c.historyLength order past br) c.phtIndexBits == cell) trace

/-- A run changes the history and the counters only. -/
theorem settings_foldl (p : GShare) (trace : List Branch) :
    (trace.foldl update p).scheme = p.scheme ∧ (trace.foldl update p).order = p.order ∧
      (trace.foldl update p).indexBits = p.indexBits := by
  induction trace generalizing p with
  | nil => exact ⟨rfl, rfl, rfl⟩
  | cons br trace ih => exact ih (p.update br)

variable {c : Config}

section

variable (valid : c.Valid) (scheme : IndexScheme) (order : ShiftOrder)

include valid

/-- The global history is the record of all outcomes. -/
theorem history_foldl_fresh (trace : List Branch) :
    (trace.foldl update (fresh c scheme order)).history =
      .recorded c.historyLength (trace.map (·.taken)) := by
  rw [history_foldl]
  exact History.push_ofLength valid.historyLength_le_register _

theorem trainingHistory_foldl_fresh (past : List Branch) (br : Branch) :
    (past.foldl update (fresh c scheme order)).trainingHistory br =
      historyAt c.historyLength order past br := by
  have before := history_foldl_fresh valid scheme order past
  have after := history_foldl_fresh valid scheme order (past ++ [br])
  rw [List.foldl_append] at after
  obtain ⟨-, sameOrder, -⟩ := settings_foldl (fresh c scheme order) past
  unfold trainingHistory historyAt
  rw [sameOrder]
  cases order with
  | shiftFirst => exact after
  | shiftLast => exact before

theorem trainingIndex_foldl_fresh (past : List Branch) (br : Branch) :
    (past.foldl update (fresh c scheme order)).trainingIndex br =
      scheme.index br.pc (historyAt c.historyLength order past br) c.phtIndexBits := by
  obtain ⟨sameScheme, -, sameWidth⟩ := settings_foldl (fresh c scheme order) past
  rw [trainingIndex, trainingHistory_foldl_fresh valid, sameScheme, sameWidth]
  rfl

theorem counterAt_foldl_fresh (trace : List Branch) (cell : Nat) :
    (trace.foldl update (fresh c scheme order)).counterAt cell =
      .trainedWith c.counterBits (trainedAt c scheme order trace cell) := by
  have unused : (fresh c scheme order).counters.get cell = .weaklyTaken c.counterBits :=
    Table.get_fresh _ _ _
  have told := (lawful_counterUse valid order).get_foldl
    ⟨sound_fresh valid scheme order, rfl⟩ (trainingIndex_foldl_fresh valid scheme order)
    trace cell
  rw [Counter.trainedWith, ← unused]
  exact told

end

/-- **Global predictors are told from the trace.** Let a fresh predictor with any index
scheme and shift order be given a run of resolved branches. Its history records their
outcomes. The counter of each cell was trained with the outcomes of those branches that
the scheme leads there, each one under the record of the outcomes up to it, with its own
outcome or without it as the order says. And what is predicted for an address is what the
counter says to which the record of all outcomes leads. -/
theorem counterAt_eq_trainedWith (accepted : c.validate = .ok ()) (scheme : IndexScheme)
    (order : ShiftOrder) : ∃ p, withScheme c scheme order = .ok p ∧ ∀ trace : List Branch,
      (trace.foldl update p).history = .recorded c.historyLength (trace.map (·.taken)) ∧
      (∀ cell, (trace.foldl update p).counterAt cell =
        .trainedWith c.counterBits (trainedAt c scheme order trace cell)) ∧
      ∀ pc, (trace.foldl update p).predict pc =
        (Counter.trainedWith c.counterBits (trainedAt c scheme order trace
          (scheme.index pc (.recorded c.historyLength (trace.map (·.taken)))
            c.phtIndexBits))).predictsTaken := by
  have valid := (Config.validate_eq_ok_iff c).mp accepted
  refine ⟨fresh c scheme order, withScheme_of_valid valid scheme order, fun trace => ?_⟩
  have history := history_foldl_fresh valid scheme order trace
  have counters := counterAt_foldl_fresh valid scheme order trace
  refine ⟨history, counters, ?_⟩
  intro pc
  obtain ⟨sameScheme, -, sameWidth⟩ := settings_foldl (fresh c scheme order) trace
  rw [predict, counters, index, history, sameScheme, sameWidth]
  rfl

/-- Two outcomes of history over four counters. -/
def fourCounters : Config :=
  { kind := .gshare, entries := 1, historyLength := 2, phtIndexBits := 2, btbEntries := 1 }

/-- A branch that is taken, falls through, and is taken again. -/
def wavering : List Branch :=
  [true, false, true].map fun taken => ⟨.ofNat 0x1000, .ofNat 0x40, taken⟩

/-- The counter under one taken outcome gets both taken branches if they enter the
history first, and the other branch if they enter it last. -/
theorem counterAt_eq_trainedWith_wavering :
    fourCounters.validate = .ok () ∧
      trainedAt fourCounters .xor .shiftFirst wavering 1 = [true, true] ∧
      trainedAt fourCounters .xor .shiftLast wavering 1 = [false] ∧ ∃ p q,
        withScheme fourCounters .xor .shiftFirst = .ok p ∧
        withScheme fourCounters .xor .shiftLast = .ok q ∧
        (wavering.foldl update q).history = .recorded 2 [true, false, true] ∧
        (wavering.foldl update p).counterAt 1 = .trainedWith 2 [true, true] ∧
        (wavering.foldl update q).counterAt 1 = .trainedWith 2 [false] ∧
        (wavering.foldl update p).predict (.ofNat 0x1000) = true ∧
        (wavering.foldl update q).predict (.ofNat 0x1000) = false := by
  have first : trainedAt fourCounters .xor .shiftFirst wavering 1 = [true, true] := by decide
  have last : trainedAt fourCounters .xor .shiftLast wavering 1 = [false] := by decide
  obtain ⟨p, built, told⟩ := counterAt_eq_trainedWith (c := fourCounters) rfl .xor .shiftFirst
  obtain ⟨q, built', told'⟩ := counterAt_eq_trainedWith (c := fourCounters) rfl .xor .shiftLast
  obtain ⟨-, counters, predictions⟩ := told wavering
  obtain ⟨history', counters', predictions'⟩ := told' wavering
  refine ⟨rfl, first, last, p, q, built, built', history', ?_, ?_, ?_, ?_⟩
  · rw [counters, first]
    rfl
  · rw [counters', last]
    rfl
  · rw [predictions]
    decide
  · rw [predictions']
    decide

end GShare

/-! ## Local histories -/

namespace TwoLevel

/-- The history of the slot of `pc` after some branches. -/
def recalled (c : Config) (trace : List Branch) (pc : Addr) : History :=
  .recorded c.historyLength ((branchesAt c.indexBits pc trace).map (·.taken))

/-- The outcomes of the branches that train the counter of a history value. -/
def trainedAt (c : Config) (trace : List Branch) (value : Nat) : List Bool :=
  outcomesWhere (fun past br => (recalled c past br.pc).bits == value) trace

/-- A history is shown to every branch of its slot. -/
def slotView : SlotView TwoLevel History where
  indexBits := indexBits
  view := localHistory
  move _ h br := h.shifted br.taken
  update := update

variable {c : Config}

theorem lawful_slotView (valid : c.Valid) : slotView.Lawful (Sound c) where
  update sound br := sound.update valid br
  indexBits_update _ _ := rfl
  view_update {p} sound br pc := by
    change (p.update br).localHistory pc =
      if pc.sameSlot p.indexBits br.pc then (p.localHistory pc).shifted br.taken
      else p.localHistory pc
    simp only [Addr.sameSlot, beq_iff_eq]
    exact Table.get_modify _ _ _ _ (sound.slot_lt br.pc)

/-- The history of a slot is the record of the outcomes of its branches. -/
theorem localHistory_foldl_fresh (valid : c.Valid) (trace : List Branch) (pc : Addr) :
    (trace.foldl update (fresh c)).localHistory pc = recalled c trace pc := by
  have unused : (fresh c).localHistory pc = .ofLength c.historyLength := Table.get_fresh _ _ _
  have told := (lawful_slotView valid).view_foldl (sound_fresh valid) trace pc
  refine told.trans ?_
  change (branchesAt c.indexBits pc trace).foldl (fun h br => h.shifted br.taken)
    ((fresh c).localHistory pc) = _
  rw [unused, recalled, ← History.push_ofLength valid.historyLength_le_register, History.push,
    List.foldl_map]

theorem counterOf_foldl_fresh (valid : c.Valid) (trace : List Branch) (h : History) :
    (trace.foldl update (fresh c)).counterOf h =
      .trainedWith c.counterBits (trainedAt c trace h.bits) := by
  have unused : (fresh c).counters.get h.bits = .weaklyTaken c.counterBits :=
    Table.get_fresh _ _ _
  have told := (lawful_counterUse valid).get_foldl (sound_fresh valid)
    (fun past br => congrArg History.bits (localHistory_foldl_fresh valid past br.pc))
    trace h.bits
  rw [Counter.trainedWith, ← unused]
  exact told

/-- **Local predictors are told from the trace.** Let a fresh predictor be given a run of
resolved branches. The history of each address records the outcomes of the branches of its
slot, and of no others. The counter of each history was trained with the outcomes of
those branches, of any slot, for whose slot just this history was recorded before. -/
theorem counterOf_eq_trainedWith (accepted : c.validate = .ok ()) (kind : c.kind = .twoLevel) :
    ∃ p, ofConfig c = .ok p ∧ DirectionPredictor.ofConfig c = .ok (some (.twoLevel p)) ∧
      ∀ trace : List Branch,
        (∀ pc, (trace.foldl update p).localHistory pc = recalled c trace pc) ∧
        (∀ h, (trace.foldl update p).counterOf h =
          .trainedWith c.counterBits (trainedAt c trace h.bits)) ∧
        ∀ pc, (trace.foldl update p).predict pc =
          (Counter.trainedWith c.counterBits
            (trainedAt c trace (recalled c trace pc).bits)).predictsTaken := by
  have valid := (Config.validate_eq_ok_iff c).mp accepted
  refine ⟨fresh c, ?_, ?_, fun trace => ?_⟩
  · rw [ofConfig_eq, accepted]
    rfl
  · have built : DirectionPredictor.fresh c = some (.twoLevel (fresh c)) := by
      simp only [DirectionPredictor.fresh, kind]
    rw [DirectionPredictor.ofConfig_eq, accepted, ← built]
    rfl
  have histories := localHistory_foldl_fresh valid trace
  have counters := counterOf_foldl_fresh valid trace
  refine ⟨histories, counters, ?_⟩
  intro pc
  rw [predict, counters, histories]

/-- Two outcomes of history for each of two slots. -/
def twoSlots : Config :=
  { kind := .twoLevel, entries := 2, historyLength := 2, btbEntries := 1 }

/-- Two branches of different slots that resolve in turn. -/
def inTurn : List Branch :=
  [⟨.ofNat 0x1000, .ofNat 0x40, true⟩, ⟨.ofNat 0x1004, .ofNat 0x40, false⟩,
    ⟨.ofNat 0x1000, .ofNat 0x40, false⟩, ⟨.ofNat 0x1004, .ofNat 0x40, true⟩]

/-- The histories of the two slots differ, and the counter of the empty history has
learnt from both. -/
theorem counterOf_eq_trainedWith_inTurn :
    twoSlots.validate = .ok () ∧ twoSlots.kind = .twoLevel ∧
      trainedAt twoSlots inTurn 0 = [true, false, true] ∧ ∃ p, ofConfig twoSlots = .ok p ∧
        (inTurn.foldl update p).localHistory (.ofNat 0x1000) = .recorded 2 [true, false] ∧
        (inTurn.foldl update p).localHistory (.ofNat 0x1004) = .recorded 2 [false, true] ∧
        (inTurn.foldl update p).counterOf (.ofLength 2) = .trainedWith 2 [true, false, true] ∧
        (inTurn.foldl update p).predict (.ofNat 0x1000) = true ∧
        (inTurn.foldl update p).predict (.ofNat 0x1004) = false := by
  have mixed : trainedAt twoSlots inTurn 0 = [true, false, true] := by decide
  obtain ⟨p, built, -, told⟩ := counterOf_eq_trainedWith (c := twoSlots) rfl rfl
  obtain ⟨histories, counters, predictions⟩ := told inTurn
  refine ⟨rfl, rfl, mixed, p, built, histories _, histories _, ?_, ?_, ?_⟩
  · exact (counters _).trans (congrArg (Counter.trainedWith 2) mixed)
  · rw [predictions]
    decide
  · rw [predictions]
    decide

end TwoLevel

end BranchPrediction
