import BranchPrediction.Proofs.Range.Predictors
/-!
# Predictors that consult a table of counters

Some predictors decide a direction by a single counter of a table and train a
single counter of that table with the outcome. They differ in how they choose
the two cells, and nothing else about them matters for what their counters
learn. Global history may train another counter than it consulted; the other
predictors, and global history that shifts last, never do.

A replay of a trace predicts each branch before it resolves and writes down the
cell that was consulted, the prediction and the outcome.

## Main definitions

* `CounterUse`: how a predictor uses a table of counters
* `CounterUse.Lawful`, `CounterUse.TrainsConsulted`: the laws of such a use
* `Bimodal.counterUse`, `GShare.counterUse`, `TwoLevel.counterUse`: the three uses
* `CounterUse.replay`: the consultations of a trace
-/

namespace BranchPrediction

/-- How a predictor uses a table of counters. -/
structure CounterUse (σ : Type) where
  counters : σ → Table Counter
  /-- The cell of the counter that decides about the branch at an address. -/
  consulted : σ → Addr → Nat
  /-- The cell of the counter that a resolved branch trains. -/
  trained : σ → Branch → Nat
  predict : σ → Addr → Bool
  update : σ → Branch → σ

namespace CounterUse

variable {σ : Type}

/-- The counters of a predictor are `bits` wide, it predicts what the consulted
one says, and a branch changes the trained one only. The last two fields make
`Inv` an invariant of the updates. -/
structure Lawful (m : CounterUse σ) (bits : Nat) (Inv : σ → Prop) : Prop where
  predict_eq : ∀ p pc, m.predict p pc = ((m.counters p).get (m.consulted p pc)).predictsTaken
  counters_update : ∀ p br,
    m.counters (m.update p br) = (m.counters p).modify (m.trained p br) (·.train br.taken)
  trained_lt : ∀ {p}, Inv p → ∀ br, m.trained p br < (m.counters p).size
  within : ∀ {p}, Inv p → (m.counters p).All (Counter.Within bits)
  update : ∀ {p}, Inv p → ∀ br, Inv (m.update p br)

/-- A branch trains the counter that was consulted for it. -/
def TrainsConsulted (m : CounterUse σ) (Inv : σ → Prop) : Prop :=
  ∀ {p}, Inv p → ∀ br, m.trained p br = m.consulted p br.pc

theorem Lawful.foldl {m : CounterUse σ} {bits : Nat} {Inv : σ → Prop} (lawful : m.Lawful bits Inv)
    {p : σ} (inv : Inv p) (trace : List Branch) : Inv (trace.foldl m.update p) := by
  induction trace generalizing p with
  | nil => exact inv
  | cons br trace ih => exact ih (lawful.update inv br)

/-- A resolved branch trains its cell and no other. -/
theorem Lawful.get_update {m : CounterUse σ} {bits : Nat} {Inv : σ → Prop}
    (lawful : m.Lawful bits Inv) {p : σ} (inv : Inv p) (br : Branch) (i : Nat) :
    (m.counters (m.update p br)).get i =
      if m.trained p br = i then ((m.counters p).get i).train br.taken
      else (m.counters p).get i := by
  rw [lawful.counters_update]
  exact Table.get_modify _ _ _ _ (lawful.trained_lt inv br)

end CounterUse

/-! ## The three uses -/

/-- Addresses select counters. -/
def Bimodal.counterUse : CounterUse Bimodal where
  counters := Bimodal.counters
  consulted := Bimodal.index
  trained p br := p.index br.pc
  predict := Bimodal.predict
  update := Bimodal.update

theorem Bimodal.lawful_counterUse (c : Config) :
    Bimodal.counterUse.Lawful c.counterBits (Bimodal.Sound c) where
  predict_eq _ _ := rfl
  counters_update _ _ := rfl
  trained_lt sound br := sound.index_lt br.pc
  within sound := sound.counters
  update sound br := sound.update br

theorem Bimodal.trainsConsulted (c : Config) :
    Bimodal.counterUse.TrainsConsulted (Bimodal.Sound c) :=
  fun _ _ => rfl

/-- Addresses and the global history select counters. -/
def GShare.counterUse : CounterUse GShare where
  counters := GShare.counters
  consulted := GShare.index
  trained := GShare.trainingIndex
  predict := GShare.predict
  update := GShare.update

theorem GShare.lawful_counterUse {c : Config} (valid : c.Valid) (order : ShiftOrder) :
    GShare.counterUse.Lawful c.counterBits fun p => p.Sound c ∧ p.order = order where
  predict_eq _ _ := rfl
  counters_update _ _ := rfl
  trained_lt inv br := inv.1.trainingIndex_lt br
  within inv := inv.1.counters
  update inv br := ⟨inv.1.update valid br, inv.2⟩

/-- With the history shifted last, the index is trained under the history that
it was consulted under. -/
theorem GShare.trainsConsulted (c : Config) :
    GShare.counterUse.TrainsConsulted fun p => p.Sound c ∧ p.order = .shiftLast := by
  intro p inv br
  change p.scheme.index br.pc (p.trainingHistory br) p.indexBits = p.index br.pc
  rw [trainingHistory, inv.2]
  rfl

/-- Local histories select counters. -/
def TwoLevel.counterUse : CounterUse TwoLevel where
  counters := TwoLevel.counters
  consulted p pc := (p.localHistory pc).bits
  trained p br := (p.localHistory br.pc).bits
  predict := TwoLevel.predict
  update := TwoLevel.update

theorem TwoLevel.lawful_counterUse {c : Config} (valid : c.Valid) :
    TwoLevel.counterUse.Lawful c.counterBits (TwoLevel.Sound c) where
  predict_eq _ _ := rfl
  counters_update _ _ := rfl
  trained_lt sound br := sound.localHistory_lt br.pc
  within sound := sound.counters
  update sound br := sound.update valid br

theorem TwoLevel.trainsConsulted (c : Config) :
    TwoLevel.counterUse.TrainsConsulted (TwoLevel.Sound c) :=
  fun _ _ => rfl

/-! ## Replays -/

/-- What a predictor was asked for a branch, and how the branch resolved. -/
structure Consultation where
  cell : Nat
  predicted : Bool
  taken : Bool

/-- The consultations of a trace, each branch predicted before it resolves. -/
def CounterUse.replay {σ : Type} (m : CounterUse σ) (p : σ) : List Branch → List Consultation
  | [] => []
  | br :: trace =>
    ⟨m.consulted p br.pc, m.predict p br.pc, br.taken⟩ :: m.replay (m.update p br) trace

namespace Consultation

/-- Whether the branch resolved otherwise than predicted. -/
def wrong (r : Consultation) : Bool :=
  r.predicted != r.taken

/-- The consultations of one counter. -/
def atCell (log : List Consultation) (i : Nat) : List Consultation :=
  log.filter fun r => r.cell == i

/-- The outcomes of the branches that consulted one counter. -/
def outcomesAt (log : List Consultation) (i : Nat) : List Bool :=
  (atCell log i).map (·.taken)

/-- The number of wrong predictions of one counter. -/
def mistakesAt (log : List Consultation) (i : Nat) : Nat :=
  (atCell log i).countP wrong

theorem atCell_cons_self {r : Consultation} {i : Nat} (log : List Consultation)
    (same : r.cell = i) : atCell (r :: log) i = r :: atCell log i := by
  unfold atCell
  exact List.filter_cons_of_pos (beq_iff_eq.mpr same)

theorem atCell_cons_of_ne {r : Consultation} {i : Nat} (log : List Consultation)
    (other : r.cell ≠ i) : atCell (r :: log) i = atCell log i := by
  unfold atCell
  exact List.filter_cons_of_neg (mt beq_iff_eq.mp other)

end Consultation

end BranchPrediction
