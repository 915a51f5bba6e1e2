import BranchPrediction.Proofs.Targets.Served
/-!
# Direction predictors read index fields

Of an address a direction predictor reads the index field of its table and
nothing more. The only part of a predictor that reads further is the private
target buffer of the gated one, which compares tags. A predictor without such a
buffer learns the same from two branches, and predicts the same for them, if
their addresses agree in that field.

## Main definitions

* `DirectionPredictor.indexBits`: the width of the field

## Main results

* `DirectionPredictor.update_congr`, `DirectionPredictor.predict_congr`: what
  agrees in the field is not told apart
-/

namespace BranchPrediction

variable {br br' : Branch} {pc pc' : Addr}

theorem IndexScheme.index_congr {n : Nat} (same : pc'.wordIndex n = pc.wordIndex n)
    (s : IndexScheme) (h : History) : s.index pc' h n = s.index pc h n := by
  cases s <;> simp only [index, same]

namespace DirectionPredictor

/-- The width of the index field that a direction predictor reads. -/
def indexBits : DirectionPredictor → Nat
  | bimodal p => p.indexBits
  | gshare p => p.indexBits
  | gatedGShare p => p.gshare.indexBits
  | twoLevel p => p.indexBits
  | perceptron p => p.indexBits

theorem indexBits_update (d : DirectionPredictor) (br : Branch) :
    (d.update br).indexBits = d.indexBits := by
  cases d with
  | perceptron p =>
    change (p.update br).indexBits = p.indexBits
    unfold Perceptron.update
    dsimp only
    split <;> rfl
  | _ => rfl

end DirectionPredictor

theorem GShare.update_congr (p : GShare)
    (same : br'.pc.wordIndex p.indexBits = br.pc.wordIndex p.indexBits)
    (taken : br'.taken = br.taken) : p.update br' = p.update br := by
  simp only [update, trainingIndex, trainingHistory, taken, IndexScheme.index_congr same]

theorem GShare.predict_congr (p : GShare)
    (same : pc'.wordIndex p.indexBits = pc.wordIndex p.indexBits) :
    p.predict pc' = p.predict pc := by
  simp only [predict, index, IndexScheme.index_congr same]

namespace Perceptron

theorem output_congr (p : Perceptron)
    (same : pc'.wordIndex p.indexBits = pc.wordIndex p.indexBits) :
    p.output pc' = p.output pc := by
  rw [output, row, index, IndexScheme.index_congr same]
  rfl

theorem update_congr (p : Perceptron)
    (same : br'.pc.wordIndex p.indexBits = br.pc.wordIndex p.indexBits)
    (taken : br'.taken = br.taken) : p.update br' = p.update br := by
  have trains : p.trains br' = p.trains br := by
    rw [Perceptron.trains, p.output_congr same, taken]
    rfl
  have selects : p.index br'.pc = p.index br.pc := IndexScheme.index_congr same _ _
  simp only [update, trains, selects, taken]

end Perceptron

namespace DirectionPredictor

/-- Without a buffer of its own, a direction predictor learns from a branch by
its index field and its outcome. -/
theorem update_congr {d : DirectionPredictor} (bare : d.buffer? = none)
    (same : br'.pc.wordIndex d.indexBits = br.pc.wordIndex d.indexBits)
    (taken : br'.taken = br.taken) : d.update br' = d.update br := by
  unfold indexBits at same
  cases d with
  | bimodal p => simp only [update, Bimodal.update, same, taken]
  | gshare p => simp only [update, p.update_congr same taken]
  | gatedGShare p => cases bare
  | twoLevel p =>
    simp only [update, TwoLevel.update, TwoLevel.slot, TwoLevel.localHistory, same, taken]
  | perceptron p => simp only [update, p.update_congr same taken]

/-- And it predicts by the index field alone. -/
theorem predict_congr {d : DirectionPredictor} (bare : d.buffer? = none)
    (same : pc'.wordIndex d.indexBits = pc.wordIndex d.indexBits) :
    d.predict pc' = d.predict pc := by
  unfold indexBits at same
  cases d with
  | bimodal p => simp only [predict, Bimodal.predict, Bimodal.counter, Bimodal.index, same]
  | gshare p => exact p.predict_congr same
  | gatedGShare p => cases bare
  | twoLevel p =>
    simp only [predict, TwoLevel.predict, TwoLevel.localHistory, TwoLevel.slot, same]
  | perceptron p =>
    change p.predict pc' = p.predict pc
    rw [Perceptron.predict, p.output_congr same]
    rfl

theorem buffer?_update_eq_none {d : DirectionPredictor} (bare : d.buffer? = none) (br : Branch) :
    (d.update br).buffer? = none := by
  cases d with
  | gatedGShare p => cases bare
  | _ => rfl

end DirectionPredictor

end BranchPrediction
