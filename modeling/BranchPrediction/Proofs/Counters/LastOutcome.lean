import BranchPrediction.Proofs.Counters.Consultation
import BranchPrediction.Proofs.Counters.Mistakes
import BranchPrediction.Proofs.Steady.Histories
/-!
# Global history that shifts first predicts the last outcome

If the history takes in an outcome before the trained index is computed, and if
the newest outcome is mixed into the lowest bit of the index, then the outcome
shows in that bit. Among branches whose addresses agree in the bit that it is
mixed with, the cells of one parity are trained by taken branches only, and the
others by not-taken branches only.

So no counter is ever led back. A counter of the first kind never leaves the
upper half of its range, and a counter of the second kind is one step away from
the lower half until it is trained for the first time. A branch predicts under
the history that it has just trained under, hence what it did last.

## Main definitions

* `GShare.OneSided`: every counter has been led in one direction only

## Main results

* `IndexScheme.testBit_zero_index`: the newest outcome shows in the index
* `GShare.OneSided.update`: counters stay one-sided
* `GShare.predict_eq_lastOutcome`: the predictions of a fresh predictor
-/

namespace BranchPrediction

/-! ## The lowest bit of an index -/

theorem testBit_zero_and_mask (x : Nat) {n : Nat} (wide : 0 < n) :
    (x &&& mask n).testBit 0 = x.testBit 0 := by
  have inside : 0 < min n 64 := by omega
  rw [testBit_and_mask, decide_eq_true inside, Bool.true_and]

/-- The lowest bit of an index field is the lowest bit above the alignment. -/
theorem Addr.testBit_zero_wordIndex (pc : Addr) {n : Nat} (wide : 0 < n) :
    (pc.wordIndex n).testBit 0 = pc.val.testBit 2 := by
  rw [wordIndex, testBit_zero_and_mask _ wide, word, Nat.testBit_shiftRight]

/-- The newest outcome shows in the lowest bit of the index. -/
theorem IndexScheme.testBit_zero_index {s : IndexScheme} {h : History} {n : Nat}
    (shows : s = .xor ∨ s = .folded ∧ h.len ≤ n) (wide : 0 < n) (nonempty : 0 < h.len)
    (pc : Addr) : (s.index pc h n).testBit 0 = (pc.val.testBit 2 ^^ h.bit 0) := by
  rcases shows with rfl | ⟨rfl, short⟩
  · rw [index, Nat.testBit_xor, pc.testBit_zero_wordIndex wide, History.lowBits,
      testBit_zero_and_mask _ wide]
    rfl
  · rw [index, Nat.testBit_xor, pc.testBit_zero_wordIndex wide, foldHistory_of_le nonempty short,
      testBit_zero_and_mask _ wide, testBit_zero_and_mask _ nonempty]
    rfl

/-! ## One-sided counters -/

namespace GShare

/-- A resolved branch trains one counter. -/
theorem counterAt_update {c : Config} {p : GShare} (sound : p.Sound c) (br : Branch) (i : Nat) :
    (p.update br).counterAt i =
      if p.trainingIndex br = i then (p.counterAt i).train br.taken else p.counterAt i :=
  Table.get_modify _ _ _ _ (sound.trainingIndex_lt br)

/-- The predictor shifts first, the newest outcome shows in the index, and the
counters have only been led by branches at addresses with a given bit. A cell
whose lowest bit differs from it belongs to taken branches. -/
structure OneSided (c : Config) (side : Bool) (p : GShare) : Prop where
  sound : p.Sound c
  order : p.order = .shiftFirst
  shows : p.scheme = .xor ∨ p.scheme = .folded ∧ c.historyLength ≤ p.indexBits
  wide : 0 < p.indexBits
  /-- Counters of taken branches predict them, and counters of other branches
  are at most one step away from that. -/
  stepsTo_le : ∀ i, (p.counterAt i).stepsTo (side ^^ i.testBit 0) ≤ (!(side ^^ i.testBit 0)).toNat

/-- A weakly taken counter predicts taken, but only just. -/
theorem stepsTo_weaklyTaken_le {bits : Nat} (wide : 0 < bits) (outcome : Bool) :
    (Counter.weaklyTaken bits).stepsTo outcome ≤ (!outcome).toNat := by
  have within : (Counter.weaklyTaken bits).Within bits := Counter.within_ofBits _ _
  obtain ⟨half, full⟩ := within.half_eq wide
  have value : (Counter.weaklyTaken bits).value =
      min (2 ^ (bits - 1)) (Counter.weaklyTaken bits).max := rfl
  cases outcome with
  | true =>
    rw [Counter.stepsTo]
    omega
  | false =>
    rw [Counter.stepsTo]
    change _ ≤ 1
    omega

theorem oneSided_fresh {c : Config} (valid : c.Valid) {scheme : IndexScheme}
    (shows : scheme = .xor ∨ scheme = .folded ∧ c.historyLength ≤ c.phtIndexBits) (side : Bool) :
    (fresh c scheme .shiftFirst).OneSided c side where
  sound := sound_fresh valid scheme .shiftFirst
  order := rfl
  shows := shows
  wide := valid.phtIndexBits_pos
  stepsTo_le i := by
    have weak : (fresh c scheme .shiftFirst).counterAt i = Counter.weaklyTaken c.counterBits :=
      Table.get_fresh _ _ _
    rw [weak]
    exact stepsTo_weaklyTaken_le valid.counterBits_pos _

namespace OneSided

variable {c : Config} {side : Bool} {p : GShare}

theorem testBit_zero_index (valid : c.Valid) (oneSided : p.OneSided c side) {pc : Addr}
    (aligned : pc.val.testBit 2 = side) {h : History} (within : h.Within c.historyLength) :
    (p.scheme.index pc h p.indexBits).testBit 0 = (side ^^ h.bit 0) := by
  have shows := oneSided.shows
  have nonempty := valid.historyLength_pos
  rw [← within.len_eq] at shows nonempty
  rw [IndexScheme.testBit_zero_index shows oneSided.wide nonempty, aligned]

/-- A branch that resolves trains under the history that its outcome has
entered. -/
theorem trainingIndex_eq (oneSided : p.OneSided c side) (br : Branch) :
    p.trainingIndex br = p.scheme.index br.pc (p.history.shifted br.taken) p.indexBits := by
  rw [trainingIndex, trainingHistory, oneSided.order]

/-- The outcome shows in the trained index. -/
theorem testBit_zero_trainingIndex (valid : c.Valid) (oneSided : p.OneSided c side)
    {br : Branch} (aligned : br.pc.val.testBit 2 = side) :
    (side ^^ (p.trainingIndex br).testBit 0) = br.taken := by
  have within := oneSided.sound.history
  have nonempty : 0 < p.history.len := by
    rw [within.len_eq]
    exact valid.historyLength_pos
  rw [oneSided.trainingIndex_eq, oneSided.testBit_zero_index valid aligned
    (within.shifted valid.historyLength_le_register br.taken), History.bit_shifted_zero nonempty]
  cases side <;> cases br.taken <;> rfl

/-- The trained counter has no further step to go. -/
theorem stepsTo_trained (valid : c.Valid) (oneSided : p.OneSided c side) {br : Branch}
    (aligned : br.pc.val.testBit 2 = side) :
    ((p.update br).counterAt (p.trainingIndex br)).stepsTo br.taken = 0 := by
  have near := oneSided.stepsTo_le (p.trainingIndex br)
  have moves : 0 < (p.counterAt (p.trainingIndex br)).max :=
    (oneSided.sound.counters _).max_pos valid.counterBits_pos
  rw [oneSided.testBit_zero_trainingIndex valid aligned] at near
  rw [counterAt_update oneSided.sound, if_pos rfl, Counter.stepsTo_train_self moves]
  have := (!br.taken).toNat_le
  omega

/-- Counters stay one-sided. -/
theorem update (valid : c.Valid) (oneSided : p.OneSided c side) {br : Branch}
    (aligned : br.pc.val.testBit 2 = side) : (p.update br).OneSided c side where
  sound := oneSided.sound.update valid br
  order := oneSided.order
  shows := oneSided.shows
  wide := oneSided.wide
  stepsTo_le i := by
    by_cases trained : p.trainingIndex br = i
    · -- the outcome is the one that the cell belongs to
      subst trained
      rw [oneSided.testBit_zero_trainingIndex valid aligned,
        oneSided.stepsTo_trained valid aligned]
      exact Nat.zero_le _
    · rw [counterAt_update oneSided.sound, if_neg trained]
      exact oneSided.stepsTo_le i

theorem foldl (valid : c.Valid) (oneSided : p.OneSided c side) {trace : List Branch}
    (aligned : ∀ br ∈ trace, br.pc.val.testBit 2 = side) :
    (trace.foldl GShare.update p).OneSided c side := by
  induction trace generalizing p with
  | nil => exact oneSided
  | cons br trace ih =>
    exact ih (oneSided.update valid (aligned br List.mem_cons_self))
      fun later member => aligned later (List.mem_cons_of_mem br member)

/-- A branch is predicted to do what it has just done. -/
theorem predict_update_self (valid : c.Valid) (oneSided : p.OneSided c side) {br : Branch}
    (aligned : br.pc.val.testBit 2 = side) : (p.update br).predict br.pc = br.taken := by
  -- it consults the counter that it has just trained
  have consulted : (p.update br).index br.pc = p.trainingIndex br :=
    (oneSided.trainingIndex_eq br).symm
  rw [predict, consulted]
  exact (Counter.predictsTaken_eq_iff _ _).mpr (oneSided.stepsTo_trained valid aligned)

/-- After a taken branch every branch on this side is predicted taken. -/
theorem predict_of_newest_taken (valid : c.Valid) (oneSided : p.OneSided c side)
    (newest : p.history.bit 0 = true) {pc : Addr} (aligned : pc.val.testBit 2 = side) :
    p.predict pc = true := by
  have near := oneSided.stepsTo_le (p.index pc)
  have shown : (side ^^ (p.index pc).testBit 0) = true := by
    rw [index, oneSided.testBit_zero_index valid aligned oneSided.sound.history, newest]
    cases side <;> rfl
  rw [shown] at near
  exact (Counter.predictsTaken_eq_iff _ _).mpr (Nat.le_zero.mp near)

/-- A branch on its own is predicted to do what it did before. -/
theorem predicted_replay (valid : c.Valid) (oneSided : p.OneSided c side) {pc : Addr}
    (aligned : pc.val.testBit 2 = side) {trace : List Branch} (alone : ∀ br ∈ trace, br.pc = pc) :
    (counterUse.replay p trace).map (·.predicted) =
      (p.predict pc :: trace.map (·.taken)).dropLast := by
  induction trace generalizing p with
  | nil => rfl
  | cons br trace ih =>
    obtain rfl : br.pc = pc := alone br List.mem_cons_self
    have later := ih (oneSided.update valid aligned)
      fun br' member => alone br' (List.mem_cons_of_mem br member)
    rw [oneSided.predict_update_self valid aligned] at later
    rw [CounterUse.replay, List.map_cons]
    change _ :: List.map _ (counterUse.replay (p.update br) trace) = _
    rw [later]
    rfl

end OneSided

/-- **Shifting first predicts the last outcome.** Let a fresh predictor shift
first and let the newest outcome show in its index. After a run of branches whose
addresses agree in the bit that the outcome is mixed with, the last branch is
predicted to do what it did, and if it was taken, every branch whose address
agrees in that bit is predicted taken. The predictions for a branch on its own
are taken, and then each of its outcomes but the last. -/
theorem predict_eq_lastOutcome {c : Config} (accepted : c.validate = .ok ())
    {scheme : IndexScheme}
    (shows : scheme = .xor ∨ scheme = .folded ∧ c.historyLength ≤ c.phtIndexBits) :
    ∃ p, GShare.withScheme c scheme .shiftFirst = .ok p ∧
      (∀ (trace : List Branch) (last : Branch) (side : Bool),
        (∀ br ∈ trace ++ [last], br.pc.val.testBit 2 = side) →
        let q := (trace ++ [last]).foldl update p
        (last.taken = true → ∀ pc : Addr, pc.val.testBit 2 = side → q.predict pc = true) ∧
          q.predict last.pc = last.taken) ∧
      ∀ (trace : List Branch) (pc : Addr), (∀ br ∈ trace, br.pc = pc) →
        (counterUse.replay p trace).map (·.predicted) =
          (true :: trace.map (·.taken)).dropLast := by
  have valid := (Config.validate_eq_ok_iff c).mp accepted
  have untaught := oneSided_fresh valid shows
  refine ⟨fresh c scheme .shiftFirst, ?_, fun trace last side aligned => ?_,
    fun trace pc alone => ?_⟩
  · rw [withScheme_eq, accepted]
    rfl
  · have earlier := (untaught side).foldl valid fun br member =>
      aligned br (List.mem_append_left _ member)
    have here : last.pc.val.testBit 2 = side :=
      aligned last (List.mem_append_right _ (List.mem_singleton_self last))
    rw [List.foldl_append]
    refine ⟨fun taken pc agrees => ?_, earlier.predict_update_self valid here⟩
    have nonempty : 0 < (trace.foldl update (fresh c scheme .shiftFirst)).history.len := by
      rw [earlier.sound.history.len_eq]
      exact valid.historyLength_pos
    refine (earlier.update valid here).predict_of_newest_taken valid ?_ agrees
    exact (History.bit_shifted_zero nonempty last.taken).trans taken
  · have first : (fresh c scheme .shiftFirst).predict pc = true := by
      have weak := stepsTo_weaklyTaken_le valid.counterBits_pos true
      rw [predict, counterAt, fresh, Table.get_fresh]
      exact (Counter.predictsTaken_eq_iff _ _).mpr (Nat.le_zero.mp weak)
    have predicted := (untaught (pc.val.testBit 2)).predicted_replay valid rfl alone
    rwa [first] at predicted

/-- A branch that alternates, starting with a taken one. -/
def alternating (n : Nat) : List Branch :=
  (List.range n).map fun k => ⟨.ofNat 0x1000, .ofNat 0x40, k % 2 == 0⟩

/-- The default configuration shifts first and folds a history that is not longer
than the index. It never predicts the turns of an alternating branch. -/
theorem predict_eq_lastOutcome_default :
    Config.default.validate = .ok () ∧ Config.default.historyLength ≤ Config.default.phtIndexBits ∧
      ∃ p, GShare.ofConfig Config.default = .ok p ∧
        (counterUse.replay p (alternating 5)).map (·.predicted) =
          [true, true, false, true, false] ∧
        ((alternating 4).foldl update p).predict (.ofNat 0x1000) = false ∧
        ((alternating 5).foldl update p).predict (.ofNat 0x2000) = true := by
  have short : Config.default.historyLength ≤ Config.default.phtIndexBits := by decide
  obtain ⟨p, built, after, alone⟩ :=
    predict_eq_lastOutcome (c := Config.default) rfl (Or.inr ⟨rfl, short⟩)
  have notTaken := after (alternating 3) ⟨.ofNat 0x1000, .ofNat 0x40, false⟩ false (by decide)
  have taken := after (alternating 4) ⟨.ofNat 0x1000, .ofNat 0x40, true⟩ false (by decide)
  refine ⟨rfl, short, p, built, ?_, notTaken.2, taken.1 rfl (.ofNat 0x2000) (by decide)⟩
  exact alone (alternating 5) (.ofNat 0x1000) (by decide)

end GShare

end BranchPrediction
