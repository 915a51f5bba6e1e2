import BranchPrediction.Proofs.Perceptron.Accumulation
import BranchPrediction.Proofs.Range.Predictors
/-!
# Training a row of weights

A step moves a weight by one unless it has reached the end of its range. A row
that is trained moves each weight in the direction that speaks for the outcome
under the given history, so its output under that history never moves away from
the outcome. An update of the predictor trains the selected row or leaves it,
and touches no other.

## Main definitions

* `toward`: what a number says for an outcome
* `Weight.stepsTo`: the steps that lie between a weight and a sign

## Main results

* `Weight.Within.value_add`, `Weight.Within.value_step`: an addition and a step
  without the machinery of the adder
* `Row.Within.toward_output_le_train`: training speaks for the outcome
* `Perceptron.Sound.rowAt_update`: what an update does to the rows
-/

namespace BranchPrediction

/-- What a number says for an outcome. -/
def toward (outcome : Bool) (x : Int) : Int :=
  if outcome then x else -x

theorem toward_toward (a b : Bool) (x : Int) : toward a (toward b x) = toward (b == a) x := by
  cases a <;> cases b <;> simp [toward]

theorem toward_add (outcome : Bool) (x y : Int) :
    toward outcome (x + y) = toward outcome x + toward outcome y := by
  cases outcome
  · exact Int.neg_add
  · rfl

/-- A number that says more for an outcome has its sign if a lesser one had it;
zero has the sign of taken. -/
theorem sign_eq_of_toward_le {outcome : Bool} {x y : Int}
    (more : toward outcome x ≤ toward outcome y) (sign : decide (0 ≤ x) = outcome) :
    decide (0 ≤ y) = outcome := by
  cases outcome with
  | true =>
    rw [decide_eq_true_iff] at sign ⊢
    exact Int.le_trans sign more
  | false =>
    rw [decide_eq_false_iff_not] at sign ⊢
    have : -x ≤ -y := more
    omega

/-! ## Weights -/

namespace Weight

/-- The number of steps after which a weight has the sign of an outcome. -/
def stepsTo (w : Weight) : Bool → Nat
  | true => (-w.value).toNat
  | false => (w.value + 1).toNat

variable {bits : Nat} {w : Weight}

/-- The adder is wider than the range, so an addition is exact up to the clamp. -/
theorem Within.value_add (within : w.Within bits) (fits : bits ≤ maxWeightBits) (delta : Int) :
    (w.add delta).value = clamp (-2 ^ (bits - 1)) (2 ^ (bits - 1) - 1) (w.value + delta) := by
  obtain ⟨rfl, -, -⟩ := within
  exact (addsExactly fits delta).value_add

theorem Within.value_step (within : w.Within bits) (fits : bits ≤ maxWeightBits) (up : Bool) :
    (w.step up).value = clamp (-2 ^ (bits - 1)) (2 ^ (bits - 1) - 1) (w.value + toward up 1) := by
  cases up <;> exact within.value_add fits _

theorem Within.value_step_true (within : w.Within bits) (fits : bits ≤ maxWeightBits) :
    (w.step true).value = Min.min (w.value + 1) (2 ^ (bits - 1) - 1) := by
  have := within.le_value
  have positive := two_pow_pred_pos bits
  rw [within.value_step fits, toward, if_pos rfl]
  unfold clamp
  omega

theorem Within.value_step_false (within : w.Within bits) (fits : bits ≤ maxWeightBits) :
    (w.step false).value = Max.max (w.value - 1) (-2 ^ (bits - 1)) := by
  have := within.value_le
  have positive := two_pow_pred_pos bits
  rw [within.value_step fits, toward, if_neg Bool.false_ne_true]
  unfold clamp
  omega

/-- A step never goes the other way. -/
theorem Within.toward_le_step (within : w.Within bits) (fits : bits ≤ maxWeightBits)
    (up : Bool) : toward up w.value ≤ toward up (w.step up).value := by
  have := within.le_value
  have := within.value_le
  cases up with
  | true =>
    rw [within.value_step_true fits]
    simp only [toward, if_true]
    omega
  | false =>
    rw [within.value_step_false fits]
    simp only [toward, Bool.false_eq_true, if_false]
    omega

/-- Either sign is at most half of the range away. -/
theorem Within.stepsTo_le (within : w.Within bits) (up : Bool) :
    (w.stepsTo up : Int) ≤ 2 ^ (bits - 1) := by
  have := within.le_value
  have := within.value_le
  have positive := two_pow_pred_pos bits
  cases up with
  | true =>
    rw [stepsTo]
    omega
  | false =>
    rw [stepsTo]
    omega

theorem Within.stepsTo_step_self (within : w.Within bits) (fits : bits ≤ maxWeightBits)
    (up : Bool) : (w.step up).stepsTo up = w.stepsTo up - 1 := by
  have positive := two_pow_pred_pos bits
  cases up with
  | true =>
    rw [stepsTo, stepsTo, within.value_step_true fits]
    omega
  | false =>
    rw [stepsTo, stepsTo, within.value_step_false fits]
    omega

end Weight

/-! ## Rows -/

namespace Row

theorem term_eq (r : Row) (h : History) (i : Nat) :
    r.term h i = toward (h.bit i) (r.weight i) :=
  rfl

theorem weight_of_lt {r : Row} {i : Nat} (inside : i < r.weights.size) :
    r.weight i = r.weights[i].value :=
  dif_pos inside

@[simp]
theorem size_train (r : Row) (h : History) (taken : Bool) :
    (r.train h taken).weights.size = r.weights.size :=
  Array.size_mapIdx

/-- Each weight takes one step. -/
theorem weight_train {r : Row} {i : Nat} (inside : i < r.weights.size) (h : History)
    (taken : Bool) :
    (r.train h taken).weight i = (r.weights[i].step (h.bit i == taken)).value := by
  have inside' : i < (r.train h taken).weights.size := by rwa [size_train]
  rw [weight_of_lt inside']
  simp only [train, Array.getElem_mapIdx]

variable {n bits : Nat} {r : Row}

/-- Each weight moves so as to speak for the outcome. -/
theorem Within.toward_term_le_train (within : r.Within n bits) (fits : bits ≤ maxWeightBits)
    (h : History) (taken : Bool) (i : Nat) :
    toward taken (r.term h i) ≤ toward taken ((r.train h taken).term h i) := by
  rw [term_eq, term_eq, toward_toward, toward_toward]
  by_cases inside : i < r.weights.size
  · rw [weight_train inside, weight_of_lt inside]
    exact (within.weights _ (Array.getElem_mem inside)).toward_le_step fits _
  · -- history bits without a weight say nothing, before and after
    have absent : r.weight i = 0 := dif_neg inside
    have absent' : (r.train h taken).weight i = 0 := dif_neg (by rwa [size_train])
    exact Int.le_of_eq (by rw [absent, absent'])

theorem Within.toward_partialSum_le_train (within : r.Within n bits)
    (fits : bits ≤ maxWeightBits) (h : History) (taken : Bool) (k : Nat) :
    toward taken (r.partialSum h k) ≤ toward taken ((r.train h taken).partialSum h k) := by
  induction k with
  | zero => exact within.bias.toward_le_step fits taken
  | succ k ih =>
    rw [partialSum, partialSum, toward_add, toward_add]
    exact Int.add_le_add ih (within.toward_term_le_train fits h taken k)

/-- Training never moves the output away from the outcome. -/
theorem Within.toward_output_le_train (within : r.Within n bits) (fits : bits ≤ maxWeightBits)
    (h : History) (taken : Bool) :
    toward taken (r.output h) ≤ toward taken ((r.train h taken).output h) := by
  rw [output, output, size_train]
  exact within.toward_partialSum_le_train fits h taken _

end Row

/-! ## Updates -/

namespace Perceptron

@[simp]
theorem history_update (p : Perceptron) (br : Branch) :
    (p.update br).history = p.history.shifted br.taken := by
  unfold update
  dsimp only
  split <;> rfl

@[simp]
theorem scheme_update (p : Perceptron) (br : Branch) : (p.update br).scheme = p.scheme := by
  unfold update
  dsimp only
  split <;> rfl

@[simp]
theorem indexBits_update (p : Perceptron) (br : Branch) :
    (p.update br).indexBits = p.indexBits := by
  unfold update
  dsimp only
  split <;> rfl

@[simp]
theorem threshold_update (p : Perceptron) (br : Branch) :
    (p.update br).threshold = p.threshold := by
  unfold update
  dsimp only
  split <;> rfl

/-- A resolved branch trains the row that it selects, if it trains at all. -/
theorem Sound.rowAt_update {c : Config} {p : Perceptron} (sound : p.Sound c) (br : Branch)
    (i : Nat) :
    (p.update br).rowAt i =
      if p.index br.pc = i ∧ p.trains br = true then (p.rowAt i).train p.history br.taken
      else p.rowAt i := by
  have selected : p.index br.pc < p.rows.size := sound.index_lt br.pc p.history
  unfold Perceptron.update
  dsimp only
  by_cases trains : p.trains br = true
  · rw [if_pos trains]
    refine (Table.get_modify p.rows _ i (·.train p.history br.taken) selected).trans ?_
    by_cases same : p.index br.pc = i
    · rw [if_pos same, if_pos ⟨same, trains⟩]
      rfl
    · rw [if_neg same, if_neg fun both => same both.1]
      rfl
  · rw [if_neg trains, if_neg fun both => trains both.2]
    rfl

/-- A mistake trains the row that made it. -/
theorem trains_of_wrong {p : Perceptron} {br : Branch} (wrong : p.predict br.pc ≠ br.taken) :
    p.trains br = true := by
  have mistaken : (p.predict br.pc != br.taken) = true := bne_iff_ne.mpr wrong
  exact Bool.or_eq_true_iff.mpr (Or.inl mistaken)

/-- Every resolved branch enters the global history. -/
theorem history_foldl (p : Perceptron) (trace : List Branch) :
    (trace.foldl update p).history = p.history.push (trace.map (·.taken)) := by
  induction trace generalizing p with
  | nil => rfl
  | cons br trace ih => rw [List.foldl_cons, ih, history_update, List.map_cons, History.push_cons]

theorem Sound.foldl {c : Config} (valid : c.Valid) {p : Perceptron} (sound : p.Sound c)
    (trace : List Branch) : (trace.foldl Perceptron.update p).Sound c :=
  List.foldlRecOn trace Perceptron.update sound fun _ sound br _ => sound.update valid br

end Perceptron

end BranchPrediction
