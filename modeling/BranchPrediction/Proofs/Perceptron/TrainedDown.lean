import Mathlib.Data.List.Induction
import Mathlib.Data.Nat.Find
import BranchPrediction.Proofs.Steady.Perceptron
/-!
# A branch that is never taken

A fresh perceptron that sees one branch fall through again and again keeps an
empty history, so the branch selects one row throughout. Each training step
takes the bias of that row down and its weights up, until they reach the two
ends of their range, which differ by one. The output goes down all the while.
It is wrong at the beginning, when it is zero, and trains for as long as it is
not confident; the row is left alone once it is, if it ever is.

## Main definitions

* `Config.sumDown`: the magnitude of the output after some training steps
* `Config.stepsDown`: the number of training steps among some branches
* `Row.TrainedDown`, `Perceptron.TrainedDown`: the row and the predictor after
  some training steps

## Main results

* `Config.stepsDown_succ`: one more branch is one more step while the output is
  not confident
* `Perceptron.trainedDown_after`: the predictor after a run in which a branch is
  never taken
-/

namespace BranchPrediction

/-! ## Counting steps -/

namespace Config

variable (c : Config)

/-- The magnitude of an output after `j` training steps. The bias can move one step
further than the weights. -/
def sumDown (j : Nat) : Nat :=
  min j (2 ^ (c.weightBits - 1)) + c.historyLength * min j (2 ^ (c.weightBits - 1) - 1)

/-- No magnitude is greater than the one that has reached the ends of all weights. -/
theorem sumDown_le (j : Nat) : c.sumDown j ≤ c.sumDown (2 ^ (c.weightBits - 1)) := by
  unfold sumDown
  generalize 2 ^ (c.weightBits - 1) = reach
  have bias : min j reach ≤ min reach reach := by omega
  have weight : min j (reach - 1) ≤ min reach (reach - 1) := by omega
  exact Nat.add_le_add bias (Nat.mul_le_mul_left _ weight)

instance : Decidable (∃ j, trainingThreshold c.historyLength < c.sumDown j) :=
  decidable_of_iff (trainingThreshold c.historyLength < c.sumDown (2 ^ (c.weightBits - 1)))
    ⟨fun most => ⟨_, most⟩, fun ⟨j, confident⟩ => Nat.lt_of_lt_of_le confident (c.sumDown_le j)⟩

/-- The number of training steps among `n` branches that fall through: one for each of
them, up to the least number of steps after which the output is confident. -/
def stepsDown (n : Nat) : Nat :=
  if confident : ∃ j, trainingThreshold c.historyLength < c.sumDown j then
    min n (Nat.find confident)
  else n

variable {c}

theorem stepsDown_of_confident {k : Nat}
    (confident : trainingThreshold c.historyLength < c.sumDown k)
    (before : ∀ j < k, c.sumDown j ≤ trainingThreshold c.historyLength) (n : Nat) :
    c.stepsDown n = min n k := by
  have least : Nat.find ⟨k, confident⟩ = k :=
    (Nat.find_eq_iff _).mpr ⟨confident, fun j less => Nat.not_lt.mpr (before j less)⟩
  rw [stepsDown, dif_pos ⟨k, confident⟩, least]

theorem stepsDown_of_never (never : ∀ j, c.sumDown j ≤ trainingThreshold c.historyLength)
    (n : Nat) : c.stepsDown n = n :=
  dif_neg fun ⟨j, confident⟩ => absurd confident (Nat.not_lt.mpr (never j))

@[simp]
theorem stepsDown_zero : c.stepsDown 0 = 0 := by
  unfold stepsDown
  split
  · exact Nat.zero_min _
  · rfl

/-- One more branch is one more step while the output is not confident. -/
theorem stepsDown_succ (n : Nat) :
    c.stepsDown (n + 1) =
      if c.sumDown (c.stepsDown n) ≤ trainingThreshold c.historyLength then c.stepsDown n + 1
      else c.stepsDown n := by
  by_cases ever : ∃ j, trainingThreshold c.historyLength < c.sumDown j
  · have reached := Nat.find_spec ever
    have before := fun j => Nat.find_min (m := j) ever
    rw [stepsDown, stepsDown, dif_pos ever, dif_pos ever]
    -- up to that least number there is a step for each branch, and from it on there is none
    by_cases early : n < Nat.find ever
    · have unsure : c.sumDown n ≤ trainingThreshold c.historyLength :=
        Nat.not_lt.mp (before n early)
      rw [Nat.min_eq_left (Nat.le_of_lt early), if_pos unsure, Nat.min_eq_left early]
    · have late := Nat.not_lt.mp early
      rw [Nat.min_eq_right late, if_neg (Nat.not_le.mpr reached),
        Nat.min_eq_right (Nat.le_succ_of_le late)]
  · have never : ∀ j, c.sumDown j ≤ trainingThreshold c.historyLength := by
      intro j
      exact Nat.not_lt.mp fun confident => ever ⟨j, confident⟩
    rw [stepsDown_of_never never, stepsDown_of_never never, if_pos (never n)]

end Config

/-! ## Rows -/

theorem cast_two_pow_pred (bits : Nat) : (2 : Int) ^ (bits - 1) = (2 ^ (bits - 1) : Nat) :=
  (Int.natCast_pow 2 (bits - 1)).symm

namespace Row

/-- A row of `n` weights after `j` training steps in which nothing was taken, neither the
branch nor any other branch in its history. -/
structure TrainedDown (n bits j : Nat) (r : Row) : Prop where
  within : r.Within n bits
  /-- The bias has moved towards the outcome. -/
  bias : r.bias.value = -(min j (2 ^ (bits - 1)) : Nat)
  /-- Each weight has moved up, since its history bit agreed with the outcome. -/
  weights : ∀ w ∈ r.weights, w.value = (min j (2 ^ (bits - 1) - 1) : Nat)

variable {n bits j : Nat} {r : Row}

theorem trainedDown_zero (n bits : Nat) : (zero n bits).TrainedDown n bits 0 where
  within := within_zero n bits
  bias := by
    rw [Nat.zero_min]
    rfl
  weights w member := by
    rw [(Array.mem_replicate.mp member).2, Nat.zero_min]
    rfl

theorem TrainedDown.train (down : r.TrainedDown n bits j) (fits : bits ≤ maxWeightBits) :
    (r.train (.ofLength n) false).TrainedDown n bits (j + 1) where
  within := down.within.train fits _ _
  bias := by
    change (r.bias.step false).value = _
    rw [down.within.bias.value_step_false fits, down.bias, cast_two_pow_pred]
    generalize 2 ^ (bits - 1) = reach
    omega
  weights w member := by
    obtain ⟨i, inside, rfl⟩ := Array.mem_mapIdx.mp member
    have listed : r.weights[i] ∈ r.weights := Array.getElem_mem inside
    have agrees : ((History.ofLength n).bit i == false) = true := by
      simp [History.bit, History.ofLength]
    have positive := Nat.two_pow_pos (bits - 1)
    rw [agrees, (down.within.weights _ listed).value_step_true fits, down.weights _ listed,
      cast_two_pow_pred]
    generalize 2 ^ (bits - 1) = reach at positive ⊢
    omega

theorem TrainedDown.partialSum (down : r.TrainedDown n bits j) {k : Nat} (terms : k ≤ n) :
    r.partialSum (.ofLength n) k =
      -(min j (2 ^ (bits - 1)) + k * min j (2 ^ (bits - 1) - 1) : Nat) := by
  induction k with
  | zero => rw [Row.partialSum, down.bias, Nat.zero_mul, Nat.add_zero]
  | succ k ih =>
    have inside : k < r.weights.size := by
      rw [down.within.size_eq]
      omega
    have nothing : (History.ofLength n).bit k = false := Nat.zero_testBit k
    rw [Row.partialSum, ih (Nat.le_of_succ_le terms), term, nothing, if_neg Bool.false_ne_true,
      weight_of_lt inside, down.weights _ (Array.getElem_mem inside), Nat.succ_mul]
    omega

end Row

/-! ## The predictor -/

namespace Perceptron

/-- A predictor with an empty history that has trained one row only, the row that `pc`
selects. -/
structure TrainedDown (c : Config) (pc : Addr) (j : Nat) (p : Perceptron) : Prop where
  sound : p.Sound c
  history : p.history = .ofLength c.historyLength
  threshold : p.threshold = trainingThreshold c.historyLength
  row : (p.row pc).TrainedDown c.historyLength c.weightBits j
  others : ∀ i, i ≠ p.index pc → p.rowAt i = .zero c.historyLength c.weightBits

theorem trainedDown_fresh {c : Config} (valid : c.Valid) (pc : Addr) :
    (fresh c).TrainedDown c pc 0 where
  sound := sound_fresh valid
  history := rfl
  threshold := rfl
  row := by
    have unused : (fresh c).row pc = .zero c.historyLength c.weightBits := Table.get_fresh _ _ _
    rw [unused]
    exact Row.trainedDown_zero _ _
  others i _ := Table.get_fresh _ _ _

namespace TrainedDown

variable {c : Config} {j : Nat} {p : Perceptron} {br : Branch}

theorem atRest {pc : Addr} (down : p.TrainedDown c pc j) : p.AtRest c false := by
  refine ⟨down.sound, ?_⟩
  intro i _ _
  rw [down.history]
  exact Nat.zero_testBit i

theorem output_eq {pc : Addr} (down : p.TrainedDown c pc j) :
    p.output pc = -(c.sumDown j : Nat) := by
  rw [output, Row.output, down.row.within.size_eq, down.history]
  exact down.row.partialSum (Nat.le_refl _)

/-- A branch that falls through trains the row while the output is not confident, and
the first time it does so the output is zero. -/
theorem trains_iff (down : p.TrainedDown c br.pc j) (refused : br.taken = false) :
    p.trains br = true ↔ c.sumDown j ≤ trainingThreshold c.historyLength := by
  rw [trains, down.output_eq, down.threshold, refused]
  simp
  omega

theorem update (valid : c.Valid) (down : p.TrainedDown c br.pc j) (refused : br.taken = false) :
    (p.update br).TrainedDown c br.pc
      (if c.sumDown j ≤ trainingThreshold c.historyLength then j + 1 else j) := by
  have rest : p.AtRest c br.taken := refused ▸ down.atRest
  -- an empty history stays empty, so the branch will select the same row again
  have history : (p.update br).history = p.history := by
    rw [history_update, rest.shifted_eq valid]
  constructor
  case sound => exact down.sound.update valid br
  case history => rw [history, down.history]
  case threshold => rw [threshold_update, down.threshold]
  case row =>
    rw [rest.row_update valid]
    by_cases unsure : c.sumDown j ≤ trainingThreshold c.historyLength
    · rw [if_pos ((down.trains_iff refused).mpr unsure), if_pos unsure, refused, down.history]
      exact down.row.train valid.weightBits_le
    · rw [if_neg (mt (down.trains_iff refused).mp unsure), if_neg unsure]
      exact down.row
  case others =>
    intro i other
    have same : (p.update br).index br.pc = p.index br.pc := by
      rw [index, index, scheme_update, indexBits_update, history]
    rw [same] at other
    rw [down.sound.rowAt_update, if_neg fun both => other both.1.symm]
    exact down.others i other

/-- A run of one branch that is never taken trains its row and no other. -/
theorem foldl_fresh (valid : c.Valid) {pc : Addr} {run : List Branch}
    (never : ∀ br ∈ run, br.pc = pc ∧ br.taken = false) :
    (run.foldl Perceptron.update (fresh c)).TrainedDown c pc (c.stepsDown run.length) := by
  induction run using List.reverseRecOn with
  | nil =>
    rw [List.length_nil, Config.stepsDown_zero]
    exact trainedDown_fresh valid pc
  | append_singleton run br ih =>
    obtain ⟨rfl, refused⟩ := never br (by simp)
    have before := ih fun br member => never br (List.mem_append_left _ member)
    rw [List.foldl_append, List.foldl_cons, List.foldl_nil, List.length_append,
      List.length_singleton, Config.stepsDown_succ]
    exact before.update valid refused

end TrainedDown

/-- **A branch that is never taken.** Let a fresh perceptron, hashed or not, be given a run
of one branch in which it is never taken. The branch selects one row throughout, and this
row is trained by each branch of the run until its output is confident. Its bias and its
weights count the training steps, as far as they reach, and its output is the sum of their
magnitudes. All other rows are as they were. -/
theorem trainedDown_after {c : Config} (accepted : c.validate = .ok ()) :
    ∃ p, ofConfig c = .ok p ∧ ∀ (pc : Addr) (run : List Branch),
      (∀ br ∈ run, br.pc = pc ∧ br.taken = false) →
        ((run.foldl update p).row pc).TrainedDown c.historyLength c.weightBits
          (c.stepsDown run.length) ∧
        (run.foldl update p).output pc = -(c.sumDown (c.stepsDown run.length) : Nat) ∧
        ∀ i, i ≠ (run.foldl update p).index pc →
          (run.foldl update p).rowAt i = .zero c.historyLength c.weightBits := by
  have valid := (Config.validate_eq_ok_iff c).mp accepted
  refine ⟨fresh c, ?_, fun pc run never => ?_⟩
  · rw [ofConfig_eq, accepted]
    rfl
  · have down := TrainedDown.foldl_fresh valid never
    exact ⟨down.row, down.output_eq, down.others⟩

/-- Weights that reach far beyond the threshold. -/
def farReaching : Config :=
  { kind := .perceptron, entries := 4, historyLength := 20, weightBits := 8, btbEntries := 1 }

/-- Weights whose sum never exceeds the threshold. -/
def shortReaching : Config :=
  { kind := .perceptron, entries := 4, historyLength := 1, weightBits := 4, btbEntries := 1 }

/-- A branch that falls through two hundred times. -/
def fallsThrough : List Branch :=
  List.replicate 200 ⟨.ofNat 0x1000, .ofNat 0x1100, false⟩

/-- With twenty outcomes of history the third step is the last one. With one outcome and
narrow weights, training goes on, and the bias comes one step further than the weight. -/
theorem trainedDown_after_fallsThrough :
    farReaching.validate = .ok () ∧ shortReaching.validate = .ok () ∧
      (∀ br ∈ fallsThrough, br.pc = .ofNat 0x1000 ∧ br.taken = false) ∧
      farReaching.stepsDown 200 = 3 ∧ shortReaching.stepsDown 200 = 200 ∧ ∃ p q,
        ofConfig farReaching = .ok p ∧ ofConfig shortReaching = .ok q ∧
        ((fallsThrough.foldl update p).row (.ofNat 0x1000)).bias.value = -3 ∧
        (fallsThrough.foldl update p).output (.ofNat 0x1000) = -63 ∧
        ((fallsThrough.foldl update q).row (.ofNat 0x1000)).bias.value = -8 ∧
        (∀ w ∈ ((fallsThrough.foldl update q).row (.ofNat 0x1000)).weights, w.value = 7) ∧
        (fallsThrough.foldl update q).output (.ofNat 0x1000) = -15 := by
  have refused : ∀ br ∈ fallsThrough, br.pc = .ofNat 0x1000 ∧ br.taken = false := by
    intro br member
    obtain rfl := List.eq_of_mem_replicate member
    exact ⟨rfl, rfl⟩
  have length : fallsThrough.length = 200 := List.length_replicate
  have three : farReaching.stepsDown 200 = 3 :=
    Config.stepsDown_of_confident (c := farReaching) (k := 3) (by decide) (by decide) 200
  have all : shortReaching.stepsDown 200 = 200 :=
    Config.stepsDown_of_never (fun j => Nat.le_trans (shortReaching.sumDown_le j) (by decide)) 200
  obtain ⟨p, built, trained⟩ := trainedDown_after (c := farReaching) rfl
  obtain ⟨q, built', trained'⟩ := trainedDown_after (c := shortReaching) rfl
  obtain ⟨row, output, -⟩ := trained (.ofNat 0x1000) fallsThrough refused
  obtain ⟨row', output', -⟩ := trained' (.ofNat 0x1000) fallsThrough refused
  rw [length, three] at row output
  rw [length, all] at row' output'
  exact ⟨rfl, rfl, refused, three, all, p, q, built, built', row.bias, output, row'.bias,
    row'.weights, output'⟩

end Perceptron

end BranchPrediction
