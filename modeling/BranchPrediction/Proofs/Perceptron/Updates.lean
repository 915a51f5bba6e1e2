import Mathlib.Algebra.Ring.Int.Defs
import BranchPrediction.Proofs.Steady.Perceptron
/-!
# What one update does to an output

A training step pushes every weight of a row one way: the bias towards the
outcome, and each other weight up or down as its history bit agrees with the
outcome or not. A weight that is pushed says what it said before and one more
for the outcome, unless it stands at the end of its range already. So the
output moves towards the outcome by the number of weights that can still move.

A row that mispredicted has such a weight. If all its weights stood at the ends
that they are pushed to, each would speak for the outcome, and so would the row.

## Main definitions

* `Push`: a weight with the direction in which it is pushed
* `Push.moves`: whether it can still move that way
* `Row.pushes`, `Row.movable`: what a training step pushes, and what it moves
* `Perceptron.Effect`: what an update does to the rows and to the history

## Main results

* `Row.Within.output_train`: the output of a row after a training step
* `Row.movable_pos`: a training step on a mistake is never in vain
* `Perceptron.effect_of_update`: every update of a reachable predictor
-/

namespace BranchPrediction

/-! ## Pushed weights -/

/-- A weight with the direction in which it is pushed. -/
structure Push where
  weight : Weight
  up : Bool

namespace Push

/-- The end of the range to which the weight is pushed. -/
def bound (e : Push) : Int :=
  if e.up then e.weight.max else e.weight.min

/-- Whether the weight has not reached that end. -/
def moves (e : Push) : Bool :=
  e.weight.value != e.bound

/-- The weight a step further. -/
def next (e : Push) : Push :=
  ⟨e.weight.step e.up, e.up⟩

/-- What the weight says for its direction. -/
def vote (e : Push) : Int :=
  toward e.up e.weight.value

variable {bits : Nat} {e : Push}

/-- A weight that can move says one more after a step. -/
theorem vote_next (within : e.weight.Within bits) (fits : bits ≤ maxWeightBits) :
    e.next.vote = e.vote + if e.moves then 1 else 0 := by
  obtain ⟨w, up⟩ := e
  change w.Within bits at within
  have least := within.le_value
  have greatest := within.value_le
  simp only [vote, next, moves, bound, Weight.max, Weight.min, within.bits_eq, bne_iff_ne, ne_eq,
    ite_not]
  -- in either direction the clamp is felt at the bound only
  cases up with
  | true =>
    rw [within.value_step_true fits]
    simp only [toward, if_true]
    split <;> omega
  | false =>
    rw [within.value_step_false fits]
    simp only [toward, Bool.false_eq_true, if_false]
    split <;> omega

/-- The ends of the range have the signs that are pushed to. -/
theorem stepsTo_of_ended (ended : e.moves = false) : e.weight.stepsTo e.up = 0 := by
  -- so the greatest value is not negative, and the least value is
  have positive := two_pow_pred_pos e.weight.bits
  obtain ⟨w, up⟩ := e
  dsimp only at positive
  cases up with
  | true =>
    have value : w.value = 2 ^ (w.bits - 1) - 1 := by simpa [moves, bound, Weight.max] using ended
    simp only [Weight.stepsTo, value]
    omega
  | false =>
    have value : w.value = -2 ^ (w.bits - 1) := by simpa [moves, bound, Weight.min] using ended
    simp only [Weight.stepsTo, value]
    omega

/-- Each weight that can move adds one to what all of them say. -/
theorem sum_vote_next {pushes : List Push} (within : ∀ e ∈ pushes, e.weight.Within bits)
    (fits : bits ≤ maxWeightBits) :
    ((pushes.map next).map vote).sum = (pushes.map vote).sum + (pushes.countP moves : Nat) := by
  induction pushes with
  | nil => rfl
  | cons e pushes ih =>
    have step := vote_next (within e List.mem_cons_self) fits
    have rest := ih fun e later => within e (List.mem_cons_of_mem _ later)
    simp only [List.map_cons, List.sum_cons, List.countP_cons, step, rest]
    split <;> push_cast <;> omega

end Push

/-! ## Rows -/

namespace Row

/-- What a training step pushes: the bias of a row, and then its weights. -/
def pushes (r : Row) (h : History) (taken : Bool) : List Push :=
  ⟨r.bias, taken⟩ :: r.weights.toList.mapIdx fun i w => ⟨w, h.bit i == taken⟩

/-- The number of weights that a training step moves, the bias included. -/
def movable (r : Row) (h : History) (taken : Bool) : Nat :=
  (r.pushes h taken).countP Push.moves

@[simp]
theorem length_pushes (r : Row) (h : History) (taken : Bool) :
    (r.pushes h taken).length = r.weights.size + 1 := by
  simp [pushes]

variable {n bits : Nat} {r : Row} {h : History} {taken : Bool}

theorem getElem?_pushes_succ {i : Nat} (inside : i < r.weights.size) (h : History)
    (taken : Bool) : (r.pushes h taken)[i + 1]? = some ⟨r.weights[i], h.bit i == taken⟩ := by
  simp [pushes, inside]

theorem Within.of_mem_pushes (within : r.Within n bits) {e : Push}
    (pushed : e ∈ r.pushes h taken) : e.weight.Within bits := by
  rcases List.mem_cons.mp pushed with rfl | weight
  · exact within.bias
  · obtain ⟨i, inside, rfl⟩ := List.mem_mapIdx.mp weight
    exact within.weights _ (Array.mem_toList_iff.mp (List.getElem_mem inside))

/-- Training is a step of every weight. -/
theorem pushes_train (r : Row) (h : History) (taken : Bool) :
    (r.train h taken).pushes h taken = (r.pushes h taken).map Push.next := by
  apply List.ext_getElem?
  intro i
  cases i with
  | zero => rfl
  | succ i =>
    simp only [pushes, train, Array.toList_mapIdx, List.getElem?_cons_succ, List.getElem?_map,
      List.getElem?_mapIdx]
    cases r.weights.toList[i]? <;> rfl

/-- A row says for an outcome what its weights say for their directions. -/
theorem toward_output (r : Row) (h : History) (taken : Bool) :
    toward taken (r.output h) = ((r.pushes h taken).map Push.vote).sum := by
  -- so do the first terms of the output, and as many weights
  have partials : ∀ k ≤ r.weights.size,
      toward taken (r.partialSum h k) = (((r.pushes h taken).take (k + 1)).map Push.vote).sum := by
    intro k inside
    induction k with
    | zero => simp [partialSum, pushes, Push.vote]
    | succ k ih =>
      rw [List.take_add_one, getElem?_pushes_succ inside, partialSum, toward_add,
        ih (Nat.le_of_succ_le inside), term_eq, toward_toward, weight_of_lt inside]
      simp [Push.vote]
  have whole := partials _ (Nat.le_refl _)
  rwa [← length_pushes r h taken, List.take_length] at whole

/-- **Training moves an output by the weights that can move.** -/
theorem Within.output_train (within : r.Within n bits) (fits : bits ≤ maxWeightBits)
    (h : History) (taken : Bool) :
    (r.train h taken).output h = r.output h + toward taken (r.movable h taken) := by
  have more : toward taken ((r.train h taken).output h) =
      toward taken (r.output h) + r.movable h taken := by
    calc toward taken ((r.train h taken).output h)
      _ = (((r.pushes h taken).map Push.next).map Push.vote).sum := by
        rw [toward_output, pushes_train]
      _ = ((r.pushes h taken).map Push.vote).sum + r.movable h taken :=
        Push.sum_vote_next (fun e => within.of_mem_pushes) fits
      _ = toward taken (r.output h) + r.movable h taken := by
        rw [toward_output]
  cases taken with
  | true => exact more
  | false =>
    simp only [toward, Bool.false_eq_true, if_false] at more ⊢
    omega

/-- A row whose weights have all reached the ends that they are pushed to is right. -/
theorem needs_zero_of_ended (ended : r.movable h taken = 0) : r.Needs h taken 0 := by
  have near : ∀ e ∈ r.pushes h taken, e.weight.stepsTo e.up ≤ 0 := by
    intro e pushed
    have stuck : ¬e.moves = true := List.countP_eq_zero.mp ended e pushed
    exact Nat.le_of_eq (Push.stepsTo_of_ended (Bool.not_eq_true _ ▸ stuck))
  constructor
  case bias => exact near _ List.mem_cons_self
  case weights =>
    intro i inside
    exact near _ (List.mem_of_getElem? (getElem?_pushes_succ inside h taken))

/-- A row that mispredicts has a weight that can move. -/
theorem movable_pos (wrong : decide (0 ≤ r.output h) ≠ taken) : 0 < r.movable h taken := by
  apply Nat.pos_of_ne_zero
  intro ended
  exact wrong (needs_zero_of_ended ended).sign_output

end Row

/-! ## Updates -/

namespace Perceptron

/-- What a resolved branch does to a predictor whose rows have `n` weights and a bias. -/
structure Effect (n : Nat) (p : Perceptron) (br : Branch) : Prop where
  /-- A training step pushes every weight of the selected row, and its bias. -/
  length_pushes : ((p.row br.pc).pushes p.history br.taken).length = n + 1
  /-- A wrong or unsure output moves towards the outcome by the number of weights that can
  move. -/
  trained : decide (0 ≤ p.output br.pc) ≠ br.taken ∨ (p.output br.pc).natAbs ≤ p.threshold →
    ((p.update br).rowAt (p.index br.pc)).output p.history =
      p.output br.pc + toward br.taken ((p.row br.pc).movable p.history br.taken)
  /-- After a wrong output there is such a weight. -/
  progress : decide (0 ≤ p.output br.pc) ≠ br.taken →
    1 ≤ (p.row br.pc).movable p.history br.taken
  /-- A row whose output is right and sure is left alone. -/
  kept : ¬(decide (0 ≤ p.output br.pc) ≠ br.taken ∨ (p.output br.pc).natAbs ≤ p.threshold) →
    (p.update br).rowAt (p.index br.pc) = p.row br.pc
  /-- No other row is touched. -/
  others : ∀ i, i ≠ p.index br.pc → (p.update br).rowAt i = p.rowAt i
  /-- The outcome enters the history. -/
  history : (p.update br).history = p.history.shifted br.taken

theorem trains_iff {p : Perceptron} {br : Branch} :
    p.trains br = true ↔
      decide (0 ≤ p.output br.pc) ≠ br.taken ∨ (p.output br.pc).natAbs ≤ p.threshold := by
  simp [trains]

theorem Sound.effect {c : Config} (valid : c.Valid) {p : Perceptron} (sound : p.Sound c)
    (br : Branch) : p.Effect c.historyLength br := by
  have within : (p.row br.pc).Within c.historyLength c.weightBits := sound.rows _
  constructor
  case length_pushes => rw [Row.length_pushes, within.size_eq]
  case trained =>
    intro reason
    rw [sound.rowAt_update, if_pos ⟨rfl, trains_iff.mpr reason⟩]
    exact within.output_train valid.weightBits_le p.history br.taken
  case progress =>
    intro wrong
    exact Row.movable_pos wrong
  case kept =>
    intro unmoved
    rw [sound.rowAt_update, if_neg fun both => unmoved (trains_iff.mp both.2)]
    rfl
  case others =>
    intro i other
    rw [sound.rowAt_update, if_neg fun both => other both.1.symm]
  case history => exact history_update p br

/-- **The effect of an update.** Whatever branches a fresh perceptron has seen, the next
one has exactly this effect: an output that is wrong or not confident moves towards the
outcome by the number of weights of its row that have not reached the ends they are
pushed to, and a wrong one always moves; any other row stays as it was, and the
history takes in the outcome. -/
theorem effect_of_update {c : Config} (accepted : c.validate = .ok ()) :
    ∃ p, ofConfig c = .ok p ∧ ∀ (trace : List Branch) (br : Branch),
      (trace.foldl update p).Effect c.historyLength br := by
  have valid := (Config.validate_eq_ok_iff c).mp accepted
  refine ⟨fresh c, ?_, fun trace br => ?_⟩
  · rw [ofConfig_eq, accepted]
    rfl
  · exact ((sound_fresh valid).foldl valid trace).effect valid br

/-- A branch that is always taken takes the bias of a narrow row to its end first. Then one
of the two weights can move, and the output moves by one. -/
theorem effect_of_update_narrow :
    narrowWeights.validate = .ok () ∧ ∃ p, ofConfig narrowWeights = .ok p ∧
      ((alternating [true]).foldl update p).output (.ofNat 0x1000) = 0 ∧
      (((alternating [true]).foldl update p).row (.ofNat 0x1000)).movable
        ((alternating [true]).foldl update p).history true = 1 ∧
      ((((alternating [true]).foldl update p).update ⟨.ofNat 0x1000, .ofNat 0x40, true⟩).rowAt
        0).output ((alternating [true]).foldl update p).history = 1 := by
  obtain ⟨p, built, effects⟩ := effect_of_update (c := narrowWeights) rfl
  have effect := effects (alternating [true]) ⟨.ofNat 0x1000, .ofNat 0x40, true⟩
  refine ⟨rfl, p, built, ?_, ?_, ?_⟩
  · cases built
    decide
  · cases built
    decide
  · have trained := effect.trained (by cases built; decide)
    cases built
    exact trained.trans (by decide)

end Perceptron

end BranchPrediction
