import BranchPrediction.Proofs.Perceptron.Separation
/-!
# Weights that are never sure

An output is confident if it exceeds a threshold that depends on the length of the
history only. Narrow weights may not add up to that much, whatever they have
learnt. Then every branch trains its row, right or wrong, and nothing is ever left
alone.

What a row holds is then told from its lessons. Its bias has walked one step
towards each outcome, and each weight one step up or down as its history bit
agreed with the outcome or not. Each walk turns around at once when the outcomes
do, but it does not go past the ends of the range.

## Main definitions

* `Row.taught`: a row after some lessons

## Main results

* `Row.Within.bias_taught`, `Row.Within.weight_taught`: the walks of a row
* `Perceptron.Sound.rowAt_foldl`: the lessons that a row was trained by
* `Perceptron.every_update_trains`: weights that never outrun the threshold
-/

namespace BranchPrediction

/-! ## Rows -/

namespace Row

variable {n bits : Nat} {r : Row}

theorem Within.bias_train (within : r.Within n bits) (fits : bits ≤ maxWeightBits) (h : History)
    (taken : Bool) :
    (r.train h taken).bias.value =
      clamp (-2 ^ (bits - 1)) (2 ^ (bits - 1) - 1) (r.bias.value + toward taken 1) :=
  within.bias.value_step fits taken

theorem Within.weight_train (within : r.Within n bits) (fits : bits ≤ maxWeightBits) {i : Nat}
    (inside : i < n) (h : History) (taken : Bool) :
    (r.train h taken).weight i =
      clamp (-2 ^ (bits - 1)) (2 ^ (bits - 1) - 1) (r.weight i + toward (h.bit i == taken) 1) := by
  have inside' : i < r.weights.size := by rwa [within.size_eq]
  rw [Row.weight_train inside', weight_of_lt inside']
  exact (within.weights _ (Array.getElem_mem inside')).value_step fits _

/-- A row after some lessons, the first one first. -/
def taught (r : Row) (lessons : List Lesson) : Row :=
  lessons.foldl (fun r l => r.train l.history l.taken) r

@[simp]
theorem taught_cons (r : Row) (l : Lesson) (lessons : List Lesson) :
    r.taught (l :: lessons) = (r.train l.history l.taken).taught lessons := by
  rw [taught, List.foldl_cons, taught]

/-- The bias walks towards the outcomes. -/
theorem Within.bias_taught (within : r.Within n bits) (fits : bits ≤ maxWeightBits)
    (lessons : List Lesson) :
    (r.taught lessons).bias.value =
      clampedSum (-2 ^ (bits - 1)) (2 ^ (bits - 1) - 1) r.bias.value
        (lessons.map fun l => toward l.taken 1) := by
  induction lessons generalizing r with
  | nil => rfl
  | cons l lessons ih =>
    rw [taught_cons, ih (within.train fits _ _), within.bias_train fits, List.map_cons,
      clampedSum_cons]

/-- Each weight walks up where its history bit agrees with the outcome. -/
theorem Within.weight_taught (within : r.Within n bits) (fits : bits ≤ maxWeightBits) {i : Nat}
    (inside : i < n) (lessons : List Lesson) :
    (r.taught lessons).weight i =
      clampedSum (-2 ^ (bits - 1)) (2 ^ (bits - 1) - 1) (r.weight i)
        (lessons.map fun l => toward (l.history.bit i == l.taken) 1) := by
  induction lessons generalizing r with
  | nil => rfl
  | cons l lessons ih =>
    rw [taught_cons, ih (within.train fits _ _), within.weight_train fits inside, List.map_cons,
      clampedSum_cons]

/-- An output has one term of full magnitude for each weight and for the bias at most. -/
theorem Within.natAbs_output_le (within : r.Within n bits) (h : History) :
    (r.output h).natAbs ≤ (n + 1) * 2 ^ (bits - 1) := by
  have bounds := within.partialSum_mem h n
  have cast : (((n + 1) * 2 ^ (bits - 1) : Nat) : Int) = (n + 1) * 2 ^ (bits - 1) := by
    push_cast
    rfl
  rw [output, within.size_eq]
  omega

end Row

/-! ## Updates -/

namespace Perceptron

variable {c : Config} {p : Perceptron}

/-- A row has been trained by the lessons of its own that trained at all. -/
theorem Sound.rowAt_foldl (valid : c.Valid) (sound : p.Sound c) (trace : List Branch)
    (row : Nat) :
    (trace.foldl Perceptron.update p).rowAt row =
      (p.rowAt row).taught ((p.lessonsOf trace row).filter (·.trained)) := by
  induction trace generalizing p with
  | nil => rfl
  | cons br trace ih =>
    rw [List.foldl_cons, ih (sound.update valid br), sound.rowAt_update]
    -- the first branch is a lesson of this row or of another one
    by_cases same : p.index br.pc = row
    · rw [lessonsOf_cons_self same]
      by_cases trains : p.trains br = true
      · have counted : (p.lesson br).trained = true := trains
        rw [if_pos ⟨same, trains⟩, List.filter_cons_of_pos counted]
        rfl
      · have skipped : ¬(p.lesson br).trained = true := trains
        rw [if_neg fun both => trains both.2, List.filter_cons_of_neg skipped]
    · rw [lessonsOf_cons_of_ne same, if_neg fun both => same both.1]

/-- An output that cannot exceed the threshold is trained on. -/
theorem Sound.trains_of_le (sound : p.Sound c)
    (weak : (c.historyLength + 1) * 2 ^ (c.weightBits - 1) ≤ p.threshold) (br : Branch) :
    p.trains br = true := by
  have within : (p.row br.pc).Within c.historyLength c.weightBits := sound.rows _
  have unsure : (p.output br.pc).natAbs ≤ p.threshold :=
    Nat.le_trans (within.natAbs_output_le p.history) weak
  exact Bool.or_eq_true_iff.mpr (Or.inr (decide_eq_true unsure))

/-- So every lesson trains. -/
theorem Sound.trained_of_le (valid : c.Valid) (sound : p.Sound c)
    (weak : (c.historyLength + 1) * 2 ^ (c.weightBits - 1) ≤ p.threshold) {trace : List Branch}
    {l : Lesson} (given : l ∈ p.lessons trace) : l.trained = true := by
  induction trace generalizing p with
  | nil => cases given
  | cons br trace ih =>
    rcases List.mem_cons.mp given with rfl | later
    · exact sound.trains_of_le weak br
    · exact ih (sound.update valid br) (by rwa [threshold_update]) later

/-- **Narrow weights are trained without end.** Let the weights of a perceptron be so
narrow, and its history so short, that no output exceeds the threshold. Then every branch
that a fresh perceptron is given trains the row that it selects. The bias of a row is the
sum of one step towards the outcome for each of these branches, and the weight of a history
bit is the sum of one step up for each of them whose outcome this bit agreed with, and
one step down for each other one; both sums are clamped to the range of a weight after
each step. -/
theorem every_update_trains (accepted : c.validate = .ok ())
    (weak : (c.historyLength + 1) * 2 ^ (c.weightBits - 1) ≤ trainingThreshold c.historyLength) :
    ∃ p, ofConfig c = .ok p ∧ ∀ trace : List Branch,
      (∀ l ∈ p.lessons trace, l.trained = true) ∧
      ∀ row,
        ((trace.foldl update p).rowAt row).bias.value =
          clampedSum (-2 ^ (c.weightBits - 1)) (2 ^ (c.weightBits - 1) - 1) 0
            ((p.lessonsOf trace row).map fun l => toward l.taken 1) ∧
        ∀ i < c.historyLength, ((trace.foldl update p).rowAt row).weight i =
          clampedSum (-2 ^ (c.weightBits - 1)) (2 ^ (c.weightBits - 1) - 1) 0
            ((p.lessonsOf trace row).map fun l => toward (l.history.bit i == l.taken) 1) := by
  have valid := (Config.validate_eq_ok_iff c).mp accepted
  have sound := sound_fresh valid
  have fits := valid.weightBits_le
  refine ⟨fresh c, ?_, fun trace => ⟨fun l given => sound.trained_of_le valid weak given, ?_⟩⟩
  · rw [ofConfig_eq, accepted]
    rfl
  intro row
  -- the lessons of a row that trained are all of its lessons
  have zero : (fresh c).rowAt row = .zero c.historyLength c.weightBits := Table.get_fresh _ _ _
  have all : ((fresh c).lessonsOf trace row).filter (·.trained) = (fresh c).lessonsOf trace row :=
    List.filter_eq_self.mpr fun l own =>
      sound.trained_of_le valid weak (List.mem_filter.mp own).1
  have within := Row.within_zero c.historyLength c.weightBits
  rw [sound.rowAt_foldl valid, all, zero]
  refine ⟨within.bias_taught fits _, fun i inside => ?_⟩
  have start : (Row.zero c.historyLength c.weightBits).weight i = 0 :=
    Row.coefficient_zero c.historyLength c.weightBits (i + 1)
  rw [within.weight_taught fits inside, start]

/-- The greatest output is as great as the threshold. -/
def barelyUnsure : Config :=
  { kind := .perceptron, entries := 1, historyLength := 1, weightBits := 4, btbEntries := 1 }

/-- A branch that is taken nine times and then falls through. -/
def turning : List Branch :=
  (List.replicate 9 true ++ [false]).map fun taken => ⟨.ofNat 0x1000, .ofNat 0x40, taken⟩

/-- The bias walks to the end of its range, where it stays until the outcome turns. The
weight begins with a step down, since the history was empty, and so it is at the end of
its range just when it turns. -/
theorem every_update_trains_turning :
    barelyUnsure.validate = .ok () ∧
      (barelyUnsure.historyLength + 1) * 2 ^ (barelyUnsure.weightBits - 1) = 16 ∧
      trainingThreshold barelyUnsure.historyLength = 16 ∧ ∃ p, ofConfig barelyUnsure = .ok p ∧
        (∀ l ∈ p.lessons turning, l.trained = true) ∧
        ((turning.foldl update p).rowAt 0).bias.value =
          clampedSum (-8) 7 0 [1, 1, 1, 1, 1, 1, 1, 1, 1, -1] ∧
        ((turning.foldl update p).rowAt 0).weight 0 =
          clampedSum (-8) 7 0 [-1, 1, 1, 1, 1, 1, 1, 1, 1, -1] ∧
        clampedSum (-8) 7 0 [1, 1, 1, 1, 1, 1, 1, 1, 1, -1] = 6 := by
  obtain ⟨p, built, trains⟩ := every_update_trains (c := barelyUnsure) rfl (by decide)
  obtain ⟨all, rows⟩ := trains turning
  obtain ⟨bias, weights⟩ := rows 0
  refine ⟨rfl, rfl, by decide, p, built, all, ?_, ?_, by decide⟩
  · rw [bias]
    cases built
    decide
  · rw [weights 0 (by decide)]
    cases built
    decide

end Perceptron

end BranchPrediction
