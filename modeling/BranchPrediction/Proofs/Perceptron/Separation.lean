import Mathlib.Algebra.Order.BigOperators.Ring.Finset
import Mathlib.Tactic.Linarith
import Mathlib.Tactic.Ring
import BranchPrediction.Proofs.Perceptron.Training
/-!
# Perceptrons learn what weights can separate

Suppose that some weights, of any size, would have predicted every branch that a
row was asked about, with a margin of one. Then the row is trained only so often,
however the branches are interleaved and whatever other rows learn in between.

Each training step adds the inputs of the branch, signed by its outcome. So it
brings the row closer to the separating weights by at least the margin, and it
lengthens the row only a little, since a row is trained on outputs that speak for
the outcome by at most the threshold. A row that makes progress in proportion to
the number of its steps and grows with the root of that number can only take so
many steps. No weight reaches the end of its range before that.

## Main definitions

* `History.input`, `Row.coefficient`, `History.score`: rows as vectors
* `Lesson`: what an update saw of the row that it selected
* `Lesson.Separated`: what separating weights achieve
* `separationBound`: the number of training steps

## Main results

* `Row.output_eq_score`: an output is a scalar product
* `Row.Learnt.train`: what one training step achieves
* `Row.Learnt.le_bound`: progress against length
* `Perceptron.trainings_le_separationBound`: the bound for the perceptron of a configuration
-/

namespace BranchPrediction

/-! ## Rows as vectors -/

theorem toward_eq_mul (outcome : Bool) (x : Int) : toward outcome x = x * toward outcome 1 := by
  cases outcome
  · exact (Int.mul_neg_one x).symm
  · exact (Int.mul_one x).symm

/-- The numbers that a row multiplies its weights by: one for the bias, and then
one for each taken outcome and minus one for each other outcome. -/
def History.input (h : History) : Nat → Int
  | 0 => 1
  | i + 1 => toward (h.bit i) 1

/-- The bias of a row, followed by its weights. -/
def Row.coefficient (r : Row) : Nat → Int
  | 0 => r.bias.value
  | i + 1 => r.weight i

/-- What a bias and `n` weights make of a history. -/
def History.score (h : History) (n : Nat) (u : Nat → Int) : Int :=
  ∑ j ∈ Finset.range (n + 1), u j * h.input j

/-- An output is a scalar product. -/
theorem Row.output_eq_score (r : Row) (h : History) :
    r.output h = h.score r.weights.size r.coefficient := by
  unfold output History.score
  induction r.weights.size with
  | zero =>
    rw [Finset.sum_range_one]
    exact (Int.mul_one _).symm
  | succ n ih =>
    rw [partialSum, Finset.sum_range_succ, ih, term_eq, toward_eq_mul]
    rfl

/-- An input is one or minus one, whichever outcome it is signed by. -/
theorem History.toward_input (h : History) (outcome : Bool) (j : Nat) :
    toward outcome (h.input j) = 1 ∨ toward outcome (h.input j) = -1 := by
  cases j with
  | zero =>
    cases outcome
    · exact Or.inr rfl
    · exact Or.inl rfl
  | succ i =>
    change toward outcome (toward (h.bit i) 1) = 1 ∨ toward outcome (toward (h.bit i) 1) = -1
    rw [toward_toward]
    cases h.bit i == outcome <;> decide

theorem History.toward_score (h : History) (n : Nat) (u : Nat → Int) (outcome : Bool) :
    toward outcome (h.score n u) =
      ∑ j ∈ Finset.range (n + 1), u j * toward outcome (h.input j) := by
  rw [score, toward_eq_mul, Finset.sum_mul]
  refine Finset.sum_congr rfl fun j _ => ?_
  rw [toward_eq_mul outcome (h.input j), Int.mul_assoc]

/-! ## Training away from the ends -/

theorem Weight.Within.value_step_of_room {bits : Nat} {w : Weight} (within : w.Within bits)
    (fits : bits ≤ maxWeightBits) (room : (w.value.natAbs : Int) + 1 < 2 ^ (bits - 1))
    (up : Bool) : (w.step up).value = w.value + toward up 1 := by
  have single : toward up 1 = 1 ∨ toward up 1 = -1 := by cases up <;> decide
  rw [within.value_step fits]
  unfold clamp
  omega

/-- A row that is away from the ends of its weights adds the signed inputs. -/
theorem Row.Within.coefficient_train {n bits : Nat} {r : Row} (within : r.Within n bits)
    (fits : bits ≤ maxWeightBits) {j : Nat} (inside : j < n + 1)
    (room : ((r.coefficient j).natAbs : Int) + 1 < 2 ^ (bits - 1)) (h : History)
    (taken : Bool) :
    (r.train h taken).coefficient j = r.coefficient j + toward taken (h.input j) := by
  cases j with
  | zero => exact within.bias.value_step_of_room fits room taken
  | succ i =>
    have inside' : i < r.weights.size := by
      rw [within.size_eq]
      omega
    change (r.train h taken).weight i = r.weight i + toward taken (toward (h.bit i) 1)
    change ((r.weight i).natAbs : Int) + 1 < _ at room
    rw [weight_of_lt inside'] at room ⊢
    rw [weight_train inside', toward_toward]
    exact (within.weights _ (Array.getElem_mem inside')).value_step_of_room fits room _

section

variable {n bits : Nat} {r : Row} (within : r.Within n bits) (fits : bits ≤ maxWeightBits)
  (room : ∀ j, j < n + 1 → ((r.coefficient j).natAbs : Int) + 1 < 2 ^ (bits - 1))
  (h : History) (taken : Bool)

include within fits room

/-- A step is worth to any weights what they would have said for the outcome. -/
theorem Row.Within.sum_mul_coefficient_train (u : Nat → Int) :
    ∑ j ∈ Finset.range (n + 1), u j * (r.train h taken).coefficient j =
      ∑ j ∈ Finset.range (n + 1), u j * r.coefficient j + toward taken (h.score n u) := by
  rw [History.toward_score, ← Finset.sum_add_distrib]
  apply Finset.sum_congr rfl
  intro j member
  have inside := Finset.mem_range.mp member
  rw [within.coefficient_train fits inside (room j inside), mul_add]

/-- A step adds to the squared length twice what the row said for the outcome, and
one for each weight. -/
theorem Row.Within.sum_sq_coefficient_train :
    ∑ j ∈ Finset.range (n + 1), (r.train h taken).coefficient j ^ 2 =
      ∑ j ∈ Finset.range (n + 1), r.coefficient j ^ 2 + 2 * toward taken (r.output h) +
        (n + 1) := by
  have ones : ((n : Int) + 1) = ∑ j ∈ Finset.range (n + 1), 1 := by simp
  rw [output_eq_score, within.size_eq, History.toward_score, ones, Finset.mul_sum,
    ← Finset.sum_add_distrib, ← Finset.sum_add_distrib]
  apply Finset.sum_congr rfl
  intro j member
  have inside := Finset.mem_range.mp member
  rw [within.coefficient_train fits inside (room j inside)]
  -- the signed input is one or minus one, so its square is one
  rcases h.toward_input taken j with up | down
  · rw [up]
    ring
  · rw [down]
    ring

end

/-! ## Progress -/

/-- The number of training steps that separating weights allow. -/
def separationBound (n : Nat) (u : Nat → Int) : Int :=
  (∑ j ∈ Finset.range (n + 1), u j ^ 2) * (n + 1 + 2 * trainingThreshold n)

/-- A row after `k` training steps, with respect to separating weights `u`. -/
structure Row.Learnt (n : Nat) (u : Nat → Int) (k : Nat) (r : Row) : Prop where
  /-- No weight takes more than one step at a time. -/
  small : ∀ j, j < n + 1 → (r.coefficient j).natAbs ≤ k
  /-- Each step brings the row closer to the separating weights. -/
  progress : (k : Int) ≤ ∑ j ∈ Finset.range (n + 1), u j * r.coefficient j
  /-- The row does not grow long. -/
  length_le : ∑ j ∈ Finset.range (n + 1), r.coefficient j ^ 2 ≤
    k * (n + 1 + 2 * trainingThreshold n)

theorem Row.coefficient_zero (n bits j : Nat) : (Row.zero n bits).coefficient j = 0 := by
  cases j with
  | zero => rfl
  | succ i =>
    change Row.weight _ i = 0
    unfold weight zero
    split
    · rw [Array.getElem_replicate]
      rfl
    · rfl

theorem Row.learnt_zero (n bits : Nat) (u : Nat → Int) : (Row.zero n bits).Learnt n u 0 where
  small j _ := by
    rw [coefficient_zero]
    exact Nat.le_refl 0
  progress := by
    simp only [coefficient_zero, Int.mul_zero, Finset.sum_const_zero]
    exact Int.le_refl 0
  length_le := by
    simp [coefficient_zero]

/-- A row that makes progress without growing long has not made many steps. -/
theorem Row.Learnt.le_bound {n k : Nat} {u : Nat → Int} {r : Row} (learnt : r.Learnt n u k) :
    (k : Int) ≤ separationBound n u := by
  have square : 0 ≤ ∑ j ∈ Finset.range (n + 1), u j ^ 2 :=
    Finset.sum_nonneg fun j _ => sq_nonneg (u j)
  rcases Nat.eq_zero_or_pos k with rfl | positive
  · exact mul_nonneg square (by positivity)
  · have positive' : (0 : Int) < k := Int.natCast_pos.mpr positive
    -- the squares of the progress, of the separating weights and of the row
    have squared : (k : Int) * k ≤ k * separationBound n u :=
      calc (k : Int) * k
          ≤ (∑ j ∈ Finset.range (n + 1), u j * r.coefficient j) ^ 2 := by
            rw [sq]
            exact mul_self_le_mul_self positive'.le learnt.progress
        _ ≤ (∑ j ∈ Finset.range (n + 1), u j ^ 2) *
              ∑ j ∈ Finset.range (n + 1), r.coefficient j ^ 2 :=
            Finset.sum_mul_sq_le_sq_mul_sq _ _ _
        _ ≤ (∑ j ∈ Finset.range (n + 1), u j ^ 2) *
              (k * (n + 1 + 2 * trainingThreshold n)) :=
            mul_le_mul_of_nonneg_left learnt.length_le square
        _ = k * separationBound n u := by
            rw [separationBound]
            ring
    exact le_of_mul_le_mul_left squared positive'

/-- One training step on a branch that is separated and was not predicted with
confidence. -/
theorem Row.Learnt.train {n bits k : Nat} {u : Nat → Int} {r : Row} (learnt : r.Learnt n u k)
    (within : r.Within n bits) (fits : bits ≤ maxWeightBits)
    (room : (k : Int) + 1 < 2 ^ (bits - 1)) {h : History} {taken : Bool}
    (separated : 1 ≤ toward taken (h.score n u))
    (unsure : toward taken (r.output h) ≤ trainingThreshold n) :
    (r.train h taken).Learnt n u (k + 1) := by
  -- in `k` steps no weight has come so far as to be clamped by the next one
  have room' : ∀ j, j < n + 1 → ((r.coefficient j).natAbs : Int) + 1 < 2 ^ (bits - 1) := by
    intro j inside
    have small := learnt.small j inside
    omega
  constructor
  case small =>
    intro j inside
    have small := learnt.small j inside
    rw [within.coefficient_train fits inside (room' j inside)]
    rcases h.toward_input taken j with up | down <;> omega
  case progress =>
    have progress := learnt.progress
    rw [within.sum_mul_coefficient_train fits room']
    push_cast
    omega
  case length_le =>
    have length_le := learnt.length_le
    rw [within.sum_sq_coefficient_train fits room']
    push_cast
    linarith

/-! ## Lessons -/

/-- What an update saw of the row that it selected. -/
structure Lesson where
  row : Nat
  history : History
  /-- The sign of the output. -/
  predicted : Bool
  /-- Whether the row was trained. -/
  trained : Bool
  taken : Bool

namespace Lesson

/-- Whether the branch resolved otherwise than predicted. -/
def wrong (l : Lesson) : Bool :=
  l.predicted != l.taken

/-- A bias and `n` weights speak for the outcome, with a margin of one. -/
def Separated (n : Nat) (u : Nat → Int) (l : Lesson) : Prop :=
  1 ≤ toward l.taken (l.history.score n u)

instance (n : Nat) (u : Nat → Int) (l : Lesson) : Decidable (l.Separated n u) :=
  inferInstanceAs (Decidable (1 ≤ _))

end Lesson

namespace Perceptron

/-- What an update sees of the row that it selects. -/
def lesson (p : Perceptron) (br : Branch) : Lesson :=
  ⟨p.index br.pc, p.history, p.predict br.pc, p.trains br, br.taken⟩

/-- The lessons of a trace. -/
def lessons (p : Perceptron) : List Branch → List Lesson
  | [] => []
  | br :: trace => p.lesson br :: (p.update br).lessons trace

/-- The lessons of one row. -/
def lessonsOf (p : Perceptron) (trace : List Branch) (row : Nat) : List Lesson :=
  (p.lessons trace).filter fun l => l.row == row

theorem lessonsOf_cons_self {p : Perceptron} {br : Branch} {row : Nat}
    (same : p.index br.pc = row) (trace : List Branch) :
    p.lessonsOf (br :: trace) row = p.lesson br :: (p.update br).lessonsOf trace row :=
  List.filter_cons_of_pos (beq_iff_eq.mpr same)

theorem lessonsOf_cons_of_ne {p : Perceptron} {br : Branch} {row : Nat}
    (other : p.index br.pc ≠ row) (trace : List Branch) :
    p.lessonsOf (br :: trace) row = (p.update br).lessonsOf trace row :=
  List.filter_cons_of_neg (mt beq_iff_eq.mp other)

/-- A row is trained on all its mistakes. -/
theorem trained_of_wrong {p : Perceptron} {trace : List Branch} {l : Lesson}
    (learnt : l ∈ p.lessons trace) (wrong : l.wrong = true) : l.trained = true := by
  induction trace generalizing p with
  | nil => cases learnt
  | cons br trace ih =>
    rcases List.mem_cons.mp learnt with rfl | later
    · exact trains_of_wrong (bne_iff_ne.mp wrong)
    · exact ih later

/-- A row is trained on outputs that do not speak for the outcome with
confidence. -/
theorem toward_output_le_of_trains {p : Perceptron} {br : Branch} (trains : p.trains br = true) :
    toward br.taken (p.output br.pc) ≤ p.threshold := by
  have reason : (decide (0 ≤ p.output br.pc) != br.taken) = true ∨
      decide ((p.output br.pc).natAbs ≤ p.threshold) = true := Bool.or_eq_true_iff.mp trains
  rw [bne_iff_ne, decide_eq_true_iff] at reason
  -- what is predicted wrongly speaks against the outcome
  cases taken : br.taken with
  | true =>
    change p.output br.pc ≤ p.threshold
    rw [taken, ne_eq, decide_eq_true_iff] at reason
    omega
  | false =>
    change -p.output br.pc ≤ p.threshold
    rw [taken, ne_eq, decide_eq_false_iff_not] at reason
    omega

/-- A separated branch that trains its row takes it one step further. -/
theorem Sound.learnt_update {c : Config} (valid : c.Valid) {p : Perceptron} (sound : p.Sound c)
    (threshold : p.threshold = trainingThreshold c.historyLength) {u : Nat → Int} {br : Branch}
    {k : Nat} (learnt : (p.row br.pc).Learnt c.historyLength u k)
    (room : (k : Int) + 1 < 2 ^ (c.weightBits - 1)) (trains : p.trains br = true)
    (separated : (p.lesson br).Separated c.historyLength u) :
    ((p.update br).rowAt (p.index br.pc)).Learnt c.historyLength u (k + 1) := by
  have within : (p.row br.pc).Within c.historyLength c.weightBits := sound.rows _
  have unsure := toward_output_le_of_trains trains
  rw [threshold] at unsure
  rw [sound.rowAt_update, if_pos ⟨rfl, trains⟩]
  exact learnt.train within valid.weightBits_le room separated unsure

/-- The steps that a row has taken and those that are still to come keep to the
bound. -/
theorem Sound.trainings_add_le {c : Config} (valid : c.Valid) {p : Perceptron}
    (sound : p.Sound c) (threshold : p.threshold = trainingThreshold c.historyLength)
    {u : Nat → Int} (room : separationBound c.historyLength u + 1 < 2 ^ (c.weightBits - 1))
    {trace : List Branch} {row k : Nat} (learnt : (p.rowAt row).Learnt c.historyLength u k)
    (separated : ∀ l ∈ p.lessonsOf trace row, l.Separated c.historyLength u) :
    ((k + (p.lessonsOf trace row).countP (·.trained) : Nat) : Int) ≤
      separationBound c.historyLength u := by
  have reached := learnt.le_bound
  -- for every number of steps at once, since an update may be one of them
  induction trace generalizing p k with
  | nil => exact reached
  | cons br trace ih =>
    have sound' := sound.update valid br
    have threshold' := (threshold_update p br).trans threshold
    by_cases same : p.index br.pc = row
    · subst same
      rw [lessonsOf_cons_self rfl] at separated ⊢
      have later := fun l member => separated l (List.mem_cons_of_mem _ member)
      by_cases trains : p.trains br = true
      · -- the bound that the row has kept to so far leaves room for this step
        have step := sound.learnt_update valid threshold learnt (by omega) trains
          (separated _ List.mem_cons_self)
        have rest := ih sound' threshold' step later step.le_bound
        have counted : (p.lesson br).trained = true := trains
        rw [List.countP_cons_of_pos counted]
        rwa [Nat.add_assoc, Nat.add_comm 1] at rest
      · have unchanged : (p.update br).rowAt (p.index br.pc) = p.rowAt (p.index br.pc) := by
          rw [sound.rowAt_update, if_neg fun both => trains both.2]
        have skipped : ¬(p.lesson br).trained = true := trains
        rw [List.countP_cons_of_neg skipped]
        exact ih sound' threshold' (unchanged ▸ learnt) later reached
    · -- other rows learn on their own
      have unchanged : (p.update br).rowAt row = p.rowAt row := by
        rw [sound.rowAt_update, if_neg fun both => same both.1]
      rw [lessonsOf_cons_of_ne same] at separated ⊢
      exact ih sound' threshold' (unchanged ▸ learnt) separated reached

/-- **Perceptrons learn what weights can separate.** If a bias and weights, of
any size, speak for the outcome of every branch that selects a row of a fresh
perceptron, with a margin of one, and if their bound is within the range of a
weight, then the row is trained at most as often as the bound says. So it makes
no more mistakes than that. -/
theorem trainings_le_separationBound {c : Config} (accepted : c.validate = .ok ()) :
    ∃ p, Perceptron.ofConfig c = .ok p ∧
      ∀ (trace : List Branch) (row : Nat) (u : Nat → Int),
        (∀ l ∈ p.lessonsOf trace row, l.Separated c.historyLength u) →
        separationBound c.historyLength u + 1 < 2 ^ (c.weightBits - 1) →
        ((p.lessonsOf trace row).countP (·.trained) : Int) ≤ separationBound c.historyLength u ∧
        ((p.lessonsOf trace row).countP (·.wrong) : Int) ≤ separationBound c.historyLength u := by
  have valid := (Config.validate_eq_ok_iff c).mp accepted
  refine ⟨fresh c, ?_, fun trace row u separated room => ?_⟩
  · rw [ofConfig_eq, accepted]
    rfl
  have untaught : ((fresh c).rowAt row).Learnt c.historyLength u 0 := by
    have zero : (fresh c).rowAt row = Row.zero c.historyLength c.weightBits :=
      Table.get_fresh _ _ _
    rw [zero]
    exact Row.learnt_zero _ _ u
  have trainings := (sound_fresh valid).trainings_add_le valid rfl room untaught separated
  rw [Nat.zero_add] at trainings
  have mistakes : (((fresh c).lessonsOf trace row).countP (·.wrong) : Int) ≤
      ((fresh c).lessonsOf trace row).countP (·.trained) :=
    Int.ofNat_le.mpr <| List.countP_mono_left fun l member wrong =>
      trained_of_wrong (List.mem_filter.mp member).1 wrong
  exact ⟨trainings, Int.le_trans mistakes trainings⟩

/-- One row of a bias and one weight. -/
def oneRow : Config :=
  { kind := .perceptron, entries := 1, historyLength := 1, weightBits := 8, btbEntries := 1 }

/-- A branch that is taken every other time. -/
def everyOther (n : Nat) : List Branch :=
  (List.range n).map fun k => ⟨.ofNat 0x1000, .ofNat 0x40, k % 2 == 0⟩

/-- The weights that predict the opposite of the newest outcome. -/
def opposite (j : Nat) : Int :=
  if j = 1 then -1 else 0

/-- A branch that is taken every other time is separated by a single weight. It
costs one mistake and eighteen training steps, of the 34 that it may cost. -/
theorem trainings_le_separationBound_everyOther :
    oneRow.validate = .ok () ∧ ∃ p, Perceptron.ofConfig oneRow = .ok p ∧
      (∀ l ∈ p.lessonsOf (everyOther 20) 0, l.Separated oneRow.historyLength opposite) ∧
      separationBound oneRow.historyLength opposite = 34 ∧
      separationBound oneRow.historyLength opposite + 1 < 2 ^ (oneRow.weightBits - 1) ∧
      ((p.lessonsOf (everyOther 20) 0).countP (·.trained) : Int) ≤ 34 ∧
      (p.lessonsOf (everyOther 20) 0).countP (·.trained) = 18 ∧
      ((p.lessonsOf (everyOther 20) 0).countP (·.wrong) : Int) ≤ 34 ∧
      (p.lessonsOf (everyOther 20) 0).countP (·.wrong) = 1 := by
  have bound : separationBound oneRow.historyLength opposite = 34 := by decide
  have room : separationBound oneRow.historyLength opposite + 1 < 2 ^ (oneRow.weightBits - 1) := by
    decide
  obtain ⟨p, built, learns⟩ := trainings_le_separationBound (c := oneRow) rfl
  have separated : ∀ l ∈ p.lessonsOf (everyOther 20) 0,
      l.Separated oneRow.historyLength opposite := by
    cases built
    decide
  have learnt := learns (everyOther 20) 0 opposite separated room
  rw [bound] at learnt
  refine ⟨rfl, p, built, separated, bound, room, learnt.1, ?_, learnt.2, ?_⟩
  · cases built
    decide
  · cases built
    decide

end Perceptron

end BranchPrediction
