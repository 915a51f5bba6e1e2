import BranchPrediction.Proofs.Perceptron.Training
import BranchPrediction.Proofs.Steady.Histories
/-!
# Perceptrons under one branch

Once the history is full of one outcome, a branch that goes on resolving that
way selects one row under one history. As long as the row is wrong it is
trained, and each step brings every weight closer to the sign that speaks for
the outcome; half of the range of a weight is the longest way. A row whose
weights all speak for the outcome predicts it. And a row that is right stays
right, whether it is trained or left alone, because training never moves its
output away from the outcome.

## Main definitions

* `Row.Needs`: a bound for the steps that the weights of a row still need
* `Perceptron.AtRest`: the history is full of one outcome

## Main results

* `Row.Needs.sign_output`: a row that needs no steps is right
* `Perceptron.AtRest.predict_foldl`: half of the range of a weight is enough
* `Perceptron.predict_after_steady_run`: both, for the perceptron of a configuration
-/

namespace BranchPrediction

/-! ## Signs of weights -/

namespace Weight

theorem sign_eq_iff (w : Weight) (up : Bool) : decide (0 ≤ w.value) = up ↔ w.stepsTo up = 0 := by
  cases up with
  | true =>
    rw [decide_eq_true_iff, stepsTo]
    omega
  | false =>
    rw [decide_eq_false_iff_not, stepsTo]
    omega

/-- A weight with the sign of an outcome does not speak against it. -/
theorem toward_nonneg {w : Weight} {up : Bool} (near : w.stepsTo up = 0) :
    0 ≤ toward up w.value := by
  cases up with
  | true =>
    rw [stepsTo] at near
    change 0 ≤ w.value
    omega
  | false =>
    rw [stepsTo] at near
    change 0 ≤ -w.value
    omega

end Weight

/-! ## Rows -/

namespace Row

/-- Each weight has the sign that speaks for an outcome, under a history, after
at most `k` steps. -/
structure Needs (h : History) (outcome : Bool) (k : Nat) (r : Row) : Prop where
  bias : r.bias.stepsTo outcome ≤ k
  weights : ∀ i (inside : i < r.weights.size), r.weights[i].stepsTo (h.bit i == outcome) ≤ k

variable {n bits k : Nat} {r : Row} {h : History} {outcome : Bool}

theorem Within.needs (within : r.Within n bits) (h : History) (outcome : Bool) :
    r.Needs h outcome (2 ^ (bits - 1)) where
  bias := by exact_mod_cast within.bias.stepsTo_le outcome
  weights i inside := by
    exact_mod_cast (within.weights _ (Array.getElem_mem inside)).stepsTo_le _

/-- Training is a step of every weight. -/
theorem Needs.train (needs : r.Needs h outcome k) (within : r.Within n bits)
    (fits : bits ≤ maxWeightBits) : (r.train h outcome).Needs h outcome (k - 1) where
  bias := by
    change (r.bias.step outcome).stepsTo outcome ≤ k - 1
    rw [within.bias.stepsTo_step_self fits]
    exact Nat.sub_le_sub_right needs.bias 1
  weights i inside := by
    rw [size_train] at inside
    simp only [Row.train, Array.getElem_mapIdx]
    rw [(within.weights _ (Array.getElem_mem inside)).stepsTo_step_self fits]
    exact Nat.sub_le_sub_right (needs.weights i inside) 1

/-- A row whose weights need no steps has an output of the right sign. -/
theorem Needs.sign_output (needs : r.Needs h outcome 0) :
    decide (0 ≤ r.output h) = outcome := by
  unfold output
  -- the bias has that sign, and no term speaks against it
  induction r.weights.size with
  | zero => exact (Weight.sign_eq_iff _ _).mpr (Nat.le_zero.mp needs.bias)
  | succ m ih =>
    refine sign_eq_of_toward_le ?_ ih
    have term : 0 ≤ toward outcome (r.term h m) := by
      rw [term_eq, toward_toward]
      by_cases inside : m < r.weights.size
      · rw [weight_of_lt inside]
        exact Weight.toward_nonneg (Nat.le_zero.mp (needs.weights m inside))
      · have absent : r.weight m = 0 := dif_neg inside
        rw [absent]
        cases h.bit m == outcome <;> decide
    rw [partialSum, toward_add]
    exact Int.le_add_of_nonneg_right term

end Row

/-! ## The predictor at rest -/

namespace Perceptron

/-- The history is full of one outcome. -/
structure AtRest (c : Config) (outcome : Bool) (p : Perceptron) : Prop where
  sound : p.Sound c
  filled : p.history.Repeats outcome c.historyLength

namespace AtRest

variable {c : Config} {p : Perceptron} {br : Branch}

theorem shifted_eq (valid : c.Valid) (rest : p.AtRest c br.taken) :
    p.history.shifted br.taken = p.history :=
  rest.filled.shifted_eq rest.sound.history valid.historyLength_le_register

theorem update (valid : c.Valid) (rest : p.AtRest c br.taken) :
    (p.update br).AtRest c br.taken := by
  refine ⟨rest.sound.update valid br, ?_⟩
  rw [history_update, rest.shifted_eq valid]
  exact rest.filled

/-- The branch goes on selecting the same row. -/
theorem row_update (valid : c.Valid) (rest : p.AtRest c br.taken) :
    (p.update br).row br.pc =
      if p.trains br = true then (p.row br.pc).train p.history br.taken else p.row br.pc := by
  have same : (p.update br).index br.pc = p.index br.pc := by
    rw [index, index, scheme_update, indexBits_update, history_update, rest.shifted_eq valid]
  rw [row, same, rest.sound.rowAt_update]
  by_cases trains : p.trains br = true
  · rw [if_pos ⟨rfl, trains⟩, if_pos trains]
    rfl
  · rw [if_neg fun both => trains both.2, if_neg trains]
    rfl

/-- A prediction that is right stays right. -/
theorem predict_update (valid : c.Valid) (rest : p.AtRest c br.taken)
    (right : p.predict br.pc = br.taken) : (p.update br).predict br.pc = br.taken := by
  refine sign_eq_of_toward_le ?_ right
  have within : (p.row br.pc).Within c.historyLength c.weightBits := rest.sound.rows _
  rw [output, output, rest.row_update valid, history_update, rest.shifted_eq valid]
  split
  · exact within.toward_output_le_train valid.weightBits_le _ _
  · exact Int.le_refl _

/-- A wrong prediction is a step for every weight. -/
theorem needs_update (valid : c.Valid) (rest : p.AtRest c br.taken)
    (wrong : p.predict br.pc ≠ br.taken) {k : Nat}
    (needs : (p.row br.pc).Needs p.history br.taken k) :
    ((p.update br).row br.pc).Needs (p.update br).history br.taken (k - 1) := by
  rw [rest.row_update valid, if_pos (trains_of_wrong wrong), history_update,
    rest.shifted_eq valid]
  exact needs.train (rest.sound.rows _) valid.weightBits_le

variable {pc : Addr} {outcome : Bool} {run : List Branch}

/-- A run of one branch is predicted rightly at its end if it was so before, or
if it is as long as the weights need. -/
theorem predict_foldl (valid : c.Valid) (steady : ∀ br ∈ run, br.pc = pc ∧ br.taken = outcome)
    (rest : p.AtRest c outcome) {k : Nat}
    (near : p.predict pc = outcome ∨ (p.row pc).Needs p.history outcome k)
    (enough : k ≤ run.length) : (run.foldl Perceptron.update p).predict pc = outcome := by
  -- either way an update leaves one of the two, since only mistakes need steps
  induction run generalizing p k with
  | nil =>
    rcases near with right | needs
    · exact right
    · obtain rfl : k = 0 := Nat.le_zero.mp enough
      exact needs.sign_output
  | cons br run ih =>
    obtain ⟨rfl, rfl⟩ := steady br List.mem_cons_self
    have later := fun br' member => steady br' (List.mem_cons_of_mem br member)
    by_cases right : p.predict br.pc = br.taken
    · exact ih later (rest.update valid) (Or.inl (rest.predict_update valid right))
        (Nat.zero_le _)
    · have needs := near.resolve_left right
      refine ih later (rest.update valid) (Or.inr (rest.needs_update valid right needs)) ?_
      rw [List.length_cons] at enough
      omega

end AtRest

/-- A run of one branch fills the history with its outcome. -/
theorem Sound.atRest_foldl {c : Config} (valid : c.Valid) {p : Perceptron} (sound : p.Sound c)
    {outcome : Bool} {run : List Branch} (steady : ∀ br ∈ run, br.taken = outcome)
    (long : c.historyLength ≤ run.length) :
    (run.foldl Perceptron.update p).AtRest c outcome := by
  refine ⟨sound.foldl valid run, ?_⟩
  have outcomes : ∀ o ∈ run.map (·.taken), o = outcome := by
    intro o member
    obtain ⟨br, listed, rfl⟩ := List.mem_map.mp member
    exact steady br listed
  rw [history_foldl]
  refine sound.history.repeats_push valid.historyLength_le_register outcomes ?_
  rwa [List.length_map]

/-- **Perceptrons learn a repeated branch.** From every reachable state, a run
of one branch with one outcome is predicted rightly after it has filled the
history and crossed half of the range of a weight. Once it has filled the
history, a prediction that is right stays right for the rest of the run. -/
theorem predict_after_steady_run {c : Config} (accepted : c.validate = .ok ()) :
    ∃ p, Perceptron.ofConfig c = .ok p ∧
      ∀ (trace run : List Branch) (pc : Addr) (outcome : Bool),
        (∀ br ∈ run, br.pc = pc ∧ br.taken = outcome) →
        (c.historyLength + 2 ^ (c.weightBits - 1) ≤ run.length →
          (run.foldl update (trace.foldl update p)).predict pc = outcome) ∧
        ∀ first second, run = first ++ second → c.historyLength ≤ first.length →
          (first.foldl update (trace.foldl update p)).predict pc = outcome →
          (run.foldl update (trace.foldl update p)).predict pc = outcome := by
  have valid := (Config.validate_eq_ok_iff c).mp accepted
  refine ⟨fresh c, ?_, fun trace run pc outcome steady => ?_⟩
  · rw [ofConfig_eq, accepted]
    rfl
  have sound := (sound_fresh valid).foldl valid trace
  -- every part of the run is steady, and a long part leaves the predictor at rest
  have parts : ∀ first second, run = first ++ second →
      (∀ br ∈ first, br.taken = outcome) ∧ ∀ br ∈ second, br.pc = pc ∧ br.taken = outcome := by
    rintro first second rfl
    exact ⟨fun br member => (steady br (List.mem_append_left _ member)).2,
      fun br member => steady br (List.mem_append_right _ member)⟩
  refine ⟨fun enough => ?_, fun first second split long right => ?_⟩
  · have split := (List.take_append_drop c.historyLength run).symm
    have rest := sound.atRest_foldl valid (parts _ _ split).1 (by
      rw [List.length_take]
      have := Nat.two_pow_pos (c.weightBits - 1)
      omega)
    rw [split, List.foldl_append]
    refine rest.predict_foldl valid (parts _ _ split).2
      (Or.inr (Row.Within.needs (rest.sound.rows _) _ _)) ?_
    rw [List.length_drop]
    omega
  · have rest := sound.atRest_foldl valid (parts _ _ split).1 long
    rw [split, List.foldl_append]
    exact rest.predict_foldl valid (parts _ _ split).2 (Or.inl right) (Nat.zero_le _)

/-- One row of two weights, each between minus two and one. -/
def narrowWeights : Config :=
  { kind := .perceptron, entries := 1, historyLength := 1, weightBits := 2, btbEntries := 1 }

/-- The same branch with given outcomes. -/
def alternating (outcomes : List Bool) : List Branch :=
  outcomes.map fun taken => ⟨.ofNat 0x1000, .ofNat 0x40, taken⟩

/-- Alternation leads the weights to their ends, and then the shortest run is
needed in full. -/
theorem predict_after_steady_run_alternating :
    narrowWeights.validate = .ok () ∧
      narrowWeights.historyLength + 2 ^ (narrowWeights.weightBits - 1) ≤ 3 ∧
      ∃ p, Perceptron.ofConfig narrowWeights = .ok p ∧
        ((alternating [false, false]).foldl update
          ((alternating [true, false, true]).foldl update p)).predict (.ofNat 0x1000) = true ∧
        ((alternating [false, false, false]).foldl update
          ((alternating [true, false, true]).foldl update p)).predict (.ofNat 0x1000) = false ∧
        ((alternating [false, false, false, false]).foldl update
          ((alternating [true, false, true]).foldl update p)).predict (.ofNat 0x1000) = false := by
  obtain ⟨p, built, learns⟩ := predict_after_steady_run (c := narrowWeights) rfl
  have learnt := (learns (alternating [true, false, true]) (alternating [false, false, false])
    (.ofNat 0x1000) false (by decide)).1 (by decide)
  have kept := (learns (alternating [true, false, true])
    (alternating [false, false, false, false]) (.ofNat 0x1000) false (by decide)).2
    (alternating [false, false, false]) (alternating [false]) rfl (by decide) learnt
  refine ⟨rfl, by decide, p, built, ?_, learnt, kept⟩
  cases built
  decide

end Perceptron

end BranchPrediction
