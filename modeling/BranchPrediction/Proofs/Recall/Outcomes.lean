import Mathlib.Data.List.Induction
import Mathlib.Data.Nat.Init
import BranchPrediction.Proofs.Counters.Consultation
import BranchPrediction.Proofs.Steady.Histories
/-!
# What a trace leaves behind

A register of outcomes and a table of counters are both moved by one resolved
branch after another. What they hold in the end can be told from the trace,
without going through the states in between.

A register holds the newest outcomes that entered it. A counter holds what the
outcomes of its own branches made of it, in their order. Which branches are its
own may depend on everything that came before each of them, so branches are
selected together with their past.

## Main definitions

* `History.recorded`: the register that some outcomes leave behind
* `outcomesWhere`: the outcomes of the branches that are selected with their past

## Main results

* `History.Within.bit_push`: what a register holds after some outcomes entered
* `History.push_ofLength`: an empty register records the outcomes that enter it
* `CounterUse.Lawful.get_foldl`: a counter after a run, from the trace alone
-/

namespace BranchPrediction

/-! ## Registers -/

namespace History

/-- The register of `len` outcomes that holds the newest of some outcomes, which
are given in the order in which they came. -/
def recorded (len : Nat) (outcomes : List Bool) : History :=
  ⟨Nat.ofBits fun i : Fin len => outcomes.reverse.getD i false, len⟩

theorem bit_recorded (len : Nat) (outcomes : List Bool) (i : Nat) :
    (recorded len outcomes).bit i = (decide (i < len) && outcomes.reverse.getD i false) := by
  unfold recorded bit
  rw [Nat.testBit_ofBits]
  split <;> simp [*]

theorem within_recorded (len : Nat) (outcomes : List Bool) :
    (recorded len outcomes).Within len :=
  ⟨rfl, Nat.ofBits_lt_two_pow _⟩

theorem push_append (h : History) (first second : List Bool) :
    h.push (first ++ second) = (h.push first).push second :=
  List.foldl_append

@[simp]
theorem len_push (h : History) (outcomes : List Bool) : (h.push outcomes).len = h.len := by
  induction outcomes generalizing h with
  | nil => rfl
  | cons o outcomes ih => rw [push_cons, ih, len_shifted]

variable {len : Nat} {h : History}

theorem Within.push (within : h.Within len) (fits : len ≤ 64) (outcomes : List Bool) :
    (h.push outcomes).Within len :=
  List.foldlRecOn outcomes History.shifted within fun _ within o _ => within.shifted fits o

/-- The newest outcomes that entered are the newest that are recorded, and what was
recorded before is older by their number. -/
theorem Within.bit_push (within : h.Within len) (fits : len ≤ 64) (outcomes : List Bool)
    (i : Nat) :
    (h.push outcomes).bit i =
      (decide (i < len) && outcomes.reverse.getD i (h.bit (i - outcomes.length))) := by
  induction outcomes using List.reverseRecOn generalizing i with
  | nil =>
    by_cases inside : i < len
    · simp [inside]
    · simp [inside, within.bit_eq_false (Nat.le_of_not_lt inside)]
  | append_singleton outcomes o ih =>
    have kept : decide (i < min len 64) = decide (i < len) :=
      decide_eq_decide.mpr (by omega)
    rw [push_append, push_cons, push_nil, bit_shifted, len_push, within.len_eq, kept,
      List.reverse_append]
    cases i with
    | zero => simp
    | succ i =>
      -- one place up stands what was there before the last outcome
      by_cases inside : i + 1 < len
      · have below : i < len := by omega
        simp [ih, inside, below]
      · simp [inside]

/-- An empty register records the outcomes that enter it. -/
theorem push_ofLength (fits : len ≤ 64) (outcomes : List Bool) :
    (ofLength len).push outcomes = recorded len outcomes := by
  have empty := within_ofLength len
  apply (empty.push fits outcomes).ext_bit (within_recorded len outcomes)
  intro i _
  rw [empty.bit_push fits, bit_recorded]
  simp [bit, ofLength]

end History

/-! ## Outcomes of selected branches -/

/-- The outcomes, in order, of the branches of a trace that are selected, each one
together with the branches that came before it. -/
def outcomesWhere (selects : List Branch → Branch → Bool) (trace : List Branch) : List Bool :=
  (trace.zipIdx.filter fun (br, j) => selects (trace.take j) br).map fun (br, _) => br.taken

/-- Whether a branch is selected does not depend on what comes after it. -/
theorem outcomesWhere_append_singleton (selects : List Branch → Branch → Bool)
    (trace : List Branch) (br : Branch) :
    outcomesWhere selects (trace ++ [br]) =
      outcomesWhere selects trace ++ if selects trace br then [br.taken] else [] := by
  have earlier : trace.zipIdx.filter (fun (b, j) => selects ((trace ++ [br]).take j) b) =
      trace.zipIdx.filter fun (b, j) => selects (trace.take j) b := by
    apply List.filter_congr
    rintro ⟨b, j⟩ member
    have listed : j < trace.length := List.snd_lt_of_mem_zipIdx member
    have past : (trace ++ [br]).take j = trace.take j :=
      List.take_append_of_le_length (Nat.le_of_lt listed)
    simp only [past]
  unfold outcomesWhere
  rw [List.zipIdx_append, List.filter_append, List.map_append, earlier]
  cases chosen : selects trace br <;> simp [chosen]

/-! ## Counters -/

namespace CounterUse

variable {σ : Type} {m : CounterUse σ} {bits : Nat} {Inv : σ → Prop} {p : σ}

/-- After a run a counter has been trained with the outcomes of its branches, if the
cell that a branch trains is told from the branches before it. -/
theorem Lawful.get_foldl (lawful : m.Lawful bits Inv) (inv : Inv p)
    {cell : List Branch → Branch → Nat}
    (told : ∀ past br, m.trained (past.foldl m.update p) br = cell past br)
    (trace : List Branch) (i : Nat) :
    (m.counters (trace.foldl m.update p)).get i =
      (outcomesWhere (fun past br => cell past br == i) trace).foldl Counter.train
        ((m.counters p).get i) := by
  induction trace using List.reverseRecOn with
  | nil => rfl
  | append_singleton trace br ih =>
    rw [List.foldl_append, List.foldl_cons, List.foldl_nil,
      lawful.get_update (lawful.foldl inv trace), told, ih, outcomesWhere_append_singleton,
      List.foldl_append]
    by_cases own : cell trace br = i
    · simp [own]
    · simp [own]

end CounterUse

end BranchPrediction
