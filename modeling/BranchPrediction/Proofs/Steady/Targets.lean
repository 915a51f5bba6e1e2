import BranchPrediction.Proofs.Steady.Counters
import BranchPrediction.Proofs.Targets.Containment
/-!
# Target caches under one branch

A taken branch finds its own target in every cache afterwards. A cache with
counters also has an opinion about the direction, and it is won over by
repetition: a slot of another branch advises not taken until one taken branch
takes it over, and a slot of the branch itself moves its counter. Two steps are
the longest way to either outcome.

## Main definitions

* `CounterEntry.stepsTo`, `CounterBuffer.stepsTo`: the repetitions that an outcome
  still needs

## Main results

* `TargetCache.lookup_update_self`: a taken branch is found
* `CounterBuffer.Sound.predict_replicate`: two repetitions are enough
-/

namespace BranchPrediction

/-! ## Stored targets -/

theorem TargetBuffer.lookup_update_self {b : TargetBuffer} (sound : b.Sound) {br : Branch}
    (taken : br.taken = true) : (b.update br).lookup br.pc = some br.target := by
  rw [lookup_eq_some_iff, indexBits_update, slot_update b br br.pc (sound.slot_lt br.pc),
    if_pos ⟨taken, rfl⟩]
  exact ⟨rfl, rfl, rfl⟩

/-- A resolved branch updates the slot of its own address. -/
theorem CounterBuffer.slot_update_self {b : CounterBuffer} (sound : b.Sound) (br : Branch) :
    (b.update br).slot br.pc = (b.slot br.pc).update (br.pc.tag b.indexBits) br :=
  (slot_update b br br.pc (sound.slot_lt br.pc)).trans (if_pos rfl)

theorem CounterBuffer.lookup_update_self {b : CounterBuffer} (sound : b.Sound) {br : Branch}
    (taken : br.taken = true) :
    ((b.update br).lookup br.pc).map (·.target) = some br.target := by
  have owned : ((b.slot br.pc).update (br.pc.tag b.indexBits) br).withoutCounter =
      ⟨true, br.pc.tag b.indexBits, br.target⟩ :=
    CounterEntry.withoutCounter_update_of_taken taken
  rw [← slot_update_self sound] at owned
  rw [← lookup_withoutCounters, TargetBuffer.lookup_eq_some_iff, slot_withoutCounters, owned]
  exact ⟨rfl, rfl, rfl⟩

/-- A taken branch is found with its target, whatever the kind of the cache. -/
theorem TargetCache.lookup_update_self {t : TargetCache} (sound : t.Sound) {br : Branch}
    (taken : br.taken = true) : (t.update br).lookup br.pc = some br.target := by
  cases t with
  | counterIntegrated b => exact CounterBuffer.lookup_update_self sound taken
  | targetOnly b => exact TargetBuffer.lookup_update_self sound taken

/-! ## Slots with counters -/

namespace CounterEntry

/-- The number of repetitions after which a slot advises an outcome for the
branch with a given tag. -/
def stepsTo (e : CounterEntry) (tag : Nat) (outcome : Bool) : Nat :=
  if e.hits tag then e.counter.stepsTo outcome else outcome.toNat

variable {e : CounterEntry}

theorem stepsTo_le (within : e.counter.Within slotCounterBits) (tag : Nat) (outcome : Bool) :
    e.stepsTo tag outcome ≤ 2 := by
  unfold stepsTo
  split
  · exact within.stepsTo_le (by decide) outcome
  · exact Nat.le_trans outcome.toNat_le (by decide)

theorem stepsTo_of_hits {tag : Nat} (hit : e.hits tag = true) (outcome : Bool) :
    e.stepsTo tag outcome = e.counter.stepsTo outcome :=
  if_pos hit

theorem stepsTo_of_misses {tag : Nat} (miss : e.hits tag = false) (outcome : Bool) :
    e.stepsTo tag outcome = outcome.toNat :=
  if_neg (ne_true_of_eq_false miss)

/-- Each repetition is a step. -/
theorem stepsTo_update_self (within : e.counter.Within slotCounterBits) (tag : Nat)
    (br : Branch) : (e.update tag br).stepsTo tag br.taken = e.stepsTo tag br.taken - 1 := by
  have moves := within.max_pos (by decide)
  unfold update
  cases hit : e.hits tag with
  | true =>
    rw [if_pos rfl, stepsTo_of_hits hit]
    -- a slot that stays in use trains its counter
    have trained : ∀ target, stepsTo ⟨e.valid, e.tag, target, e.counter.train br.taken⟩ tag
        br.taken = e.counter.stepsTo br.taken - 1 := fun target =>
      (stepsTo_of_hits (e := ⟨e.valid, e.tag, target, _⟩) hit _).trans
        (Counter.stepsTo_train_self moves br.taken)
    cases taken : br.taken with
    | true =>
      rw [taken] at trained
      exact trained br.target
    | false =>
      rw [taken] at trained
      by_cases low : e.counter.value ≤ 1
      · -- a slot that is emptied has no further step to go
        have three : e.counter.max = 3 := within.max_eq
        have near : e.counter.stepsTo false ≤ 1 := by
          rw [Counter.stepsTo]
          omega
        rw [if_neg Bool.false_ne_true, if_pos low, stepsTo_of_misses rfl]
        exact (Nat.sub_eq_zero_of_le near).symm
      · rw [if_neg Bool.false_ne_true, if_neg low]
        exact trained e.target
  | false =>
    rw [if_neg Bool.false_ne_true, stepsTo_of_misses hit]
    cases taken : br.taken with
    | true =>
      have owned : hits ⟨true, tag, br.target, Counter.weaklyTaken slotCounterBits⟩ tag = true :=
        hits_iff.mpr ⟨rfl, rfl⟩
      rw [if_pos rfl, stepsTo_of_hits owned]
      change (Counter.weaklyTaken slotCounterBits).stepsTo true = 0
      decide
    | false =>
      rw [if_neg Bool.false_ne_true, stepsTo_of_misses hit]
      rfl

end CounterEntry

/-! ## Buffers with counters -/

namespace CounterBuffer

/-- The number of repetitions after which a buffer predicts an outcome for the
branch at `pc`. -/
def stepsTo (b : CounterBuffer) (pc : Addr) (outcome : Bool) : Nat :=
  (b.slot pc).stepsTo (pc.tag b.indexBits) outcome

theorem stepsTo_update_self {b : CounterBuffer} (sound : b.Sound) (br : Branch) :
    (b.update br).stepsTo br.pc br.taken = b.stepsTo br.pc br.taken - 1 := by
  unfold stepsTo
  rw [slot_update_self sound, indexBits_update]
  exact CounterEntry.stepsTo_update_self (sound.counters _) _ br

/-- A buffer predicts the outcomes that need no further repetition. -/
theorem taken_predict_eq_iff (b : CounterBuffer) (pc : Addr) (outcome : Bool) :
    (b.predict pc).taken = outcome ↔ b.stepsTo pc outcome = 0 := by
  unfold predict lookup stepsTo
  dsimp only
  cases hit : (b.slot pc).hits (pc.tag b.indexBits) with
  | true =>
    rw [if_pos rfl, CounterEntry.stepsTo_of_hits hit, ← Counter.predictsTaken_eq_iff,
      Option.filter_some]
    cases (b.slot pc).counter.predictsTaken <;> rfl
  | false =>
    rw [if_neg Bool.false_ne_true, CounterEntry.stepsTo_of_misses hit]
    cases outcome with
    | true => exact iff_of_false Bool.false_ne_true (by decide)
    | false => exact iff_of_true rfl rfl

/-- What is predicted taken goes to the stored target. -/
theorem predict_eq_of_lookup {b : CounterBuffer} {pc target : Addr} {taken : Bool}
    (direction : (b.predict pc).taken = taken)
    (stored : taken = true → (b.lookup pc).map (·.target) = some target) :
    b.predict pc = if taken then .jump target else .fallThrough pc := by
  unfold predict at direction ⊢
  cases found : b.lookup pc with
  | none =>
    rw [found] at direction
    obtain rfl : false = taken := direction
    rfl
  | some e =>
    rw [found] at direction stored
    rw [Option.filter_some] at direction ⊢
    cases advice : e.counter.predictsTaken with
    | true =>
      rw [advice] at direction
      obtain rfl : true = taken := direction
      rw [← Option.some.inj (stored rfl)]
      rfl
    | false =>
      rw [advice] at direction
      obtain rfl : false = taken := direction
      rfl

/-- **Two repetitions are enough.** A buffer with counters predicts a branch
that resolved twice in the same way to do so once more, whatever it held. -/
theorem Sound.predict_replicate {b : CounterBuffer} (sound : b.Sound) (br : Branch) {n : Nat}
    (twice : 2 ≤ n) :
    ((List.replicate n br).foldl CounterBuffer.update b).predict br.pc =
      if br.taken then .jump br.target else .fallThrough br.pc := by
  have direction : (((List.replicate n br).foldl CounterBuffer.update b).predict br.pc).taken =
      br.taken := by
    have far : b.stepsTo br.pc br.taken ≤ 2 := CounterEntry.stepsTo_le (sound.counters _) _ _
    have steps := steps_foldl_replicate (fun b : CounterBuffer => b.stepsTo br.pc br.taken)
      (·.update br) (stepsTo_update_self · br) sound n
    rw [taken_predict_eq_iff, steps]
    omega
  refine predict_eq_of_lookup direction fun taken => ?_
  -- the last repetition stored the target
  rw [foldl_replicate_of_pos _ _ _ (by omega)]
  exact lookup_update_self (sound.foldl _) taken

end CounterBuffer

end BranchPrediction
