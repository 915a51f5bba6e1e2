import BranchPrediction.Proofs.Isolation.SlotView
import BranchPrediction.Proofs.Targets.DirectMapped
/-!
# The three states of a slot with a counter

A slot of a target buffer with counters consists of a flag, a tag, a target and a
counter with four values. Predictions show much less of it. The slot is idle, or it
holds a branch weakly, or it holds it strongly, and these three states move on their
own.

A slot in use whose counter stands at one is idle, and so is a slot that is not in use.
The two are not updated alike: the first one raises its counter for its own branch
and the second one is taken over, and a branch that is not taken empties the first one
and leaves the second one alone. Both ways lead to the same state. This would fail for
a slot in use whose counter stands at zero, since a taken branch would leave it idle.
No slot gets there: it is emptied before.

## Main definitions

* `SlotState`: idle, or a branch held weakly or strongly
* `SlotState.next`: what a resolved branch of the slot does
* `SlotState.advice`: what a state predicts
* `CounterBuffer.state`: the state of the slot of an address

## Main results

* `CounterEntry.state_update`: a slot moves as its state does
* `CounterBuffer.state_foldl`: so does the slot of an address in a run
* `CounterBuffer.predict_eq_advice_after`: predictions of a buffer with counters
-/

namespace BranchPrediction

/-! ## States -/

/-- What a slot shows. The branch that it holds is known by its word address. -/
inductive SlotState where
  | idle
  | weak (word : Nat) (target : Addr)
  | strong (word : Nat) (target : Addr)
  deriving DecidableEq

namespace SlotState

/-- The word of the branch that is held. -/
def word? : SlotState → Option Nat
  | idle => none
  | weak w _ | strong w _ => some w

/-- A hold is lost in two steps. -/
def weaken : SlotState → SlotState
  | strong w t => weak w t
  | weak _ _ | idle => idle

/-- What a resolved branch of the slot makes of its state. A taken branch takes the
slot over or gets a strong hold of it, one that is not taken weakens its own hold. -/
def next (s : SlotState) (br : Branch) : SlotState :=
  if br.taken then
    if s.word? = some br.pc.word then strong br.pc.word br.target
    else weak br.pc.word br.target
  else if s.word? = some br.pc.word then s.weaken
  else s

/-- What is predicted for the branch at `pc`: a branch that is held goes to its target. -/
def advice (s : SlotState) (pc : Addr) : Prediction :=
  match s with
  | weak w t | strong w t => if w = pc.word then .jump t else .fallThrough pc
  | idle => .fallThrough pc

/-- The state of the slot of `pc` in a table of `2 ^ k` slots that were idle before
the branches of a trace. -/
def after (k : Nat) (pc : Addr) (trace : List Branch) : SlotState :=
  (branchesAt k pc trace).foldl next idle

/-- A taken branch is predicted to be taken once more. -/
theorem advice_next_of_taken (s : SlotState) {br : Branch} (taken : br.taken = true) :
    (s.next br).advice br.pc = .jump br.target := by
  unfold next
  rw [if_pos taken]
  split
  · exact if_pos rfl
  · exact if_pos rfl

end SlotState

/-! ## Slots -/

namespace CounterEntry

/-- A slot in use has not used up its counter. -/
def Live (e : CounterEntry) : Prop :=
  e.valid = true → 0 < e.counter.value

theorem live_empty : empty.Live :=
  fun valid => absurd valid (by decide)

variable {e : CounterEntry}

theorem Live.update (live : e.Live) (within : e.counter.Within slotCounterBits) (tag : Nat)
    (br : Branch) : (e.update tag br).Live := by
  unfold CounterEntry.update
  cases hit : e.hits tag with
  | true =>
    have positive := live (hits_iff.mp hit).1
    cases taken : br.taken with
    | true =>
      intro _
      have bounded := within.value_le
      simp only [if_true, Counter.increment]
      split <;> omega
    | false =>
      by_cases low : e.counter.value ≤ 1
      · simpa [low] using live_empty
      · intro _
        simp only [if_true, Bool.false_eq_true, if_false, low, Counter.decrement]
        omega
  | false =>
    cases taken : br.taken with
    | true => exact fun _ => (by decide : 0 < (Counter.weaklyTaken slotCounterBits).value)
    | false => exact live

/-- The state of a slot, where `wordOf` tells words from tags. -/
def state (e : CounterEntry) (wordOf : Nat → Nat) : SlotState :=
  if e.valid = true ∧ 1 < e.counter.value then
    if e.counter.value = 2 then .weak (wordOf e.tag) e.target else .strong (wordOf e.tag) e.target
  else .idle

variable {wordOf : Nat → Nat}

section

variable {used : Bool} {tag : Nat} {target : Addr} {c : Counter}

theorem state_of_low (low : c.value ≤ 1) : state ⟨used, tag, target, c⟩ wordOf = .idle :=
  if_neg fun held => absurd low (Nat.not_le.mpr held.2)

theorem state_of_two (two : c.value = 2) :
    state ⟨true, tag, target, c⟩ wordOf = .weak (wordOf tag) target := by
  simp [state, two]

theorem state_of_three (three : c.value = 3) :
    state ⟨true, tag, target, c⟩ wordOf = .strong (wordOf tag) target := by
  simp [state, three]

end

/-- The word that a state shows is that of the tag. -/
theorem word?_state {w : Nat} (held : (e.state wordOf).word? = some w) :
    e.valid = true ∧ wordOf e.tag = w := by
  unfold state at held
  split at held
  · next used =>
    refine ⟨used.1, ?_⟩
    split at held <;> exact Option.some.inj held
  · cases held

/-- A branch that hits a slot moves it as its state. The counter stands at one, two or
three. -/
theorem state_update_of_hits (within : e.counter.Within slotCounterBits) (live : e.Live)
    {tag : Nat} {br : Branch} (own : wordOf tag = br.pc.word) (hit : e.hits tag = true) :
    (e.update tag br).state wordOf = (e.state wordOf).next br := by
  obtain ⟨used, tag', target, c⟩ := e
  obtain ⟨rfl, rfl⟩ : used = true ∧ tag' = tag := hits_iff.mp hit
  have top : c.max = 3 := within.max_eq
  have positive : 0 < c.value := live rfl
  have bounded : c.value ≤ 3 := top ▸ within.value_le
  have values : c.value = 1 ∨ c.value = 2 ∨ c.value = 3 := by omega
  unfold update
  rw [if_pos hit]
  cases taken : br.taken with
  | true =>
    rw [if_pos rfl]
    rcases values with one | two | three
    · -- an idle slot gets a weak hold of its branch
      have raised : c.increment.value = 2 := by simp [Counter.increment, one, top]
      rw [state_of_low (Nat.le_of_eq one), state_of_two raised]
      simp [SlotState.next, SlotState.word?, taken, own]
    · have raised : c.increment.value = 3 := by simp [Counter.increment, two, top]
      rw [state_of_two two, state_of_three raised]
      simp [SlotState.next, SlotState.word?, taken, own]
    · have raised : c.increment.value = 3 := by simp [Counter.increment, three, top]
      rw [state_of_three three, state_of_three raised]
      simp [SlotState.next, SlotState.word?, taken, own]
  | false =>
    rw [if_neg Bool.false_ne_true]
    rcases values with one | two | three
    · have low : c.value ≤ 1 := Nat.le_of_eq one
      rw [if_pos low, state_of_low low]
      simp [SlotState.next, SlotState.word?, taken, state, empty]
    · -- the slot stays in use, but its counter is low
      have lowered : c.decrement.value ≤ 1 := by simp [Counter.decrement, two]
      have high : ¬c.value ≤ 1 := by omega
      rw [if_neg high, state_of_two two, state_of_low lowered]
      simp [SlotState.next, SlotState.word?, SlotState.weaken, taken, own]
    · have lowered : c.decrement.value = 2 := by simp [Counter.decrement, three]
      have high : ¬c.value ≤ 1 := by omega
      rw [if_neg high, state_of_three three, state_of_two lowered]
      simp [SlotState.next, SlotState.word?, SlotState.weaken, taken, own]

/-- A branch that misses a slot moves it as its state. It is not the branch that the
slot holds. -/
theorem state_update_of_misses (inj : Function.Injective wordOf) {tag : Nat} {br : Branch}
    (own : wordOf tag = br.pc.word) (miss : e.hits tag = false) :
    (e.update tag br).state wordOf = (e.state wordOf).next br := by
  have other : (e.state wordOf).word? ≠ some br.pc.word := by
    -- a word tells its tag, so the slot would be hit
    intro held
    obtain ⟨valid, word⟩ := word?_state held
    have hit : e.hits tag = true := hits_iff.mpr ⟨valid, inj (word.trans own.symm)⟩
    rw [miss] at hit
    cases hit
  unfold update
  rw [miss, if_neg Bool.false_ne_true]
  cases taken : br.taken with
  | true =>
    have fresh : (Counter.weaklyTaken slotCounterBits).value = 2 := by decide
    rw [if_pos rfl, state_of_two fresh, SlotState.next, if_pos taken, if_neg other, own]
  | false =>
    rw [if_neg Bool.false_ne_true, SlotState.next, if_neg (by simp [taken]), if_neg other]

/-- **A slot moves as its state.** -/
theorem state_update (within : e.counter.Within slotCounterBits) (live : e.Live)
    (inj : Function.Injective wordOf) {tag : Nat} {br : Branch}
    (own : wordOf tag = br.pc.word) :
    (e.update tag br).state wordOf = (e.state wordOf).next br := by
  cases hit : e.hits tag with
  | true => exact state_update_of_hits within live own hit
  | false => exact state_update_of_misses inj own hit

/-- A slot advises what its state advises. -/
theorem advice_state (within : e.counter.Within slotCounterBits)
    (inj : Function.Injective wordOf) {tag : Nat} {pc : Addr} (own : wordOf tag = pc.word) :
    (e.state wordOf).advice pc =
      if e.hits tag = true ∧ e.counter.predictsTaken = true then .jump e.target
      else .fallThrough pc := by
  have advises : e.counter.predictsTaken = true ↔ 1 < e.counter.value := by
    have top : e.counter.max = 3 := within.max_eq
    simp [Counter.predictsTaken, top]
  have owner : wordOf e.tag = pc.word ↔ e.tag = tag := by
    rw [← own]
    exact inj.eq_iff
  simp only [hits_iff, advises]
  unfold state
  by_cases used : e.valid = true ∧ 1 < e.counter.value
  · rw [if_pos used]
    -- whether the branch is held weakly or strongly does not matter here
    have held : ∀ s, s = SlotState.weak (wordOf e.tag) e.target ∨
        s = SlotState.strong (wordOf e.tag) e.target →
          s.advice pc = if e.tag = tag then .jump e.target else .fallThrough pc := by
      rintro s (rfl | rfl) <;> simp only [SlotState.advice, owner]
    rw [held _ (by split <;> simp)]
    simp only [used, true_and, and_true]
  · rw [if_neg used, if_neg fun both => used ⟨both.1.1, both.2⟩]
    rfl

end CounterEntry

/-! ## Words of a slot -/

namespace Addr

/-- The word with a given tag that selects the slot of `pc`. -/
def wordOfTag (pc : Addr) (n tag : Nat) : Nat :=
  tag * 2 ^ n + pc.wordIndex n

theorem wordOfTag_injective (pc : Addr) (n : Nat) : Function.Injective (pc.wordOfTag n) := by
  intro tag tag' same
  exact Nat.eq_of_mul_eq_mul_right (Nat.two_pow_pos n) (Nat.add_right_cancel same)

theorem wordOfTag_tag (pc : Addr) {n : Nat} (narrow : n ≤ maxIndexBits) :
    pc.wordOfTag n (pc.tag n) = pc.word :=
  (pc.word_eq_tag_wordIndex (Nat.le_trans narrow (by decide))).symm

/-- The branches of a slot agree on its words. -/
theorem wordOfTag_congr {n : Nat} {a b : Addr} (same : a.sameSlot n b = true) :
    b.wordOfTag n = a.wordOfTag n := by
  funext tag
  rw [wordOfTag, wordOfTag, beq_iff_eq.mp same]

end Addr

/-! ## Buffers -/

namespace CounterBuffer

/-- The state of the slot of `pc`. -/
def state (b : CounterBuffer) (pc : Addr) : SlotState :=
  (b.slot pc).state (pc.wordOfTag b.indexBits)

/-- A sound buffer whose slots are all live. -/
structure Live (b : CounterBuffer) : Prop where
  sound : b.Sound
  slots : b.slots.All CounterEntry.Live

theorem live_fresh {k : Nat} (narrow : k ≤ maxIndexBits) : (fresh (2 ^ k)).Live :=
  ⟨sound_fresh_two_pow narrow, Table.all_fresh _ CounterEntry.live_empty⟩

theorem Live.update {b : CounterBuffer} (live : b.Live) (br : Branch) : (b.update br).Live := by
  refine ⟨live.sound.update br, ?_⟩
  -- a slot needs its counter in range to stay live, so both are kept together
  have both : b.slots.All fun e => e.counter.Within slotCounterBits ∧ e.Live :=
    fun i => ⟨live.sound.counters i, live.slots i⟩
  have kept := both.modify (br.pc.wordIndex b.indexBits)
    (f := fun e => e.update (br.pc.tag b.indexBits) br)
    fun e held => ⟨CounterEntry.within_update _ br held.1, held.2.update held.1 _ br⟩
  exact fun i => (kept i).2

theorem Live.foldl {b : CounterBuffer} (live : b.Live) (trace : List Branch) :
    (trace.foldl CounterBuffer.update b).Live :=
  List.foldlRecOn trace CounterBuffer.update live fun _ live br _ => live.update br

theorem state_update {b : CounterBuffer} (live : b.Live) (br : Branch) (pc : Addr) :
    (b.update br).state pc =
      if pc.sameSlot b.indexBits br.pc then (b.state pc).next br else b.state pc := by
  unfold state
  rw [indexBits_update, slot_update b br pc (live.sound.slot_lt br.pc)]
  cases same : pc.sameSlot b.indexBits br.pc with
  | true =>
    -- the words of the slot are counted from `pc`, and from `br.pc` they are the same
    have slots : br.pc.wordIndex b.indexBits = pc.wordIndex b.indexBits := beq_iff_eq.mp same
    rw [if_pos slots, if_pos rfl]
    refine CounterEntry.state_update (live.sound.counters _) (live.slots _)
      (pc.wordOfTag_injective _) ?_
    rw [← Addr.wordOfTag_congr same]
    exact br.pc.wordOfTag_tag live.sound.indexBits_le
  | false =>
    have slots : br.pc.wordIndex b.indexBits ≠ pc.wordIndex b.indexBits := by
      simpa [Addr.sameSlot] using same
    rw [if_neg slots, if_neg Bool.false_ne_true]

/-- The state of a slot is shown to all its branches. -/
def stateView : SlotView CounterBuffer SlotState where
  indexBits := indexBits
  view := state
  move _ s br := s.next br
  update := update

theorem lawful_stateView : stateView.Lawful Live where
  update live br := live.update br
  indexBits_update := indexBits_update
  view_update live br pc := state_update live br pc

/-- In a run the state of a slot moves on its own. -/
theorem state_foldl {b : CounterBuffer} (live : b.Live) (trace : List Branch) (pc : Addr) :
    (trace.foldl update b).state pc =
      (branchesAt b.indexBits pc trace).foldl SlotState.next (b.state pc) :=
  lawful_stateView.view_foldl live trace pc

theorem state_fresh (entries : Nat) (pc : Addr) : (fresh entries).state pc = .idle := by
  unfold state slot fresh
  rw [Table.get_fresh]
  rfl

theorem state_foldl_fresh {k : Nat} (narrow : k ≤ maxIndexBits) (trace : List Branch)
    (pc : Addr) : (trace.foldl update (fresh (2 ^ k))).state pc = .after k pc trace := by
  rw [state_foldl (live_fresh narrow), state_fresh, indexBits_fresh narrow]
  rfl

/-- A buffer predicts what the state of the slot advises. -/
theorem predict_eq_advice {b : CounterBuffer} (sound : b.Sound) (pc : Addr) :
    b.predict pc = (b.state pc).advice pc := by
  have within : (b.slot pc).counter.Within slotCounterBits := sound.counters _
  rw [state, CounterEntry.advice_state within (pc.wordOfTag_injective _)
    (pc.wordOfTag_tag sound.indexBits_le)]
  unfold predict lookup
  dsimp only
  cases (b.slot pc).hits (pc.tag b.indexBits) with
  | true =>
    rw [if_pos rfl, Option.filter_some]
    cases (b.slot pc).counter.predictsTaken <;> rfl
  | false => rfl

/-- **Slots are machines with three states.** Let a fresh buffer of any size that
passes the checks be given a run of resolved branches. What it predicts for a branch
then is what the state of the slot advises, which has moved with the branches of this
slot and no others. No slot in use has used up its counter, and a branch that is taken
next is predicted taken to its target. -/
theorem predict_eq_advice_after {k : Nat} (narrow : k ≤ maxIndexBits) :
    ∃ b, ofSize (2 ^ k) = .ok b ∧ ∀ trace : List Branch,
      (∀ pc, (trace.foldl update b).predict pc = (SlotState.after k pc trace).advice pc) ∧
      (∀ i, ((trace.foldl update b).slots.get i).Live) ∧
      ∀ br, br.taken = true →
        ((trace.foldl update b).update br).predict br.pc = .jump br.target := by
  refine ⟨fresh (2 ^ k), ofSize_two_pow narrow, fun trace => ?_⟩
  have live := (live_fresh narrow).foldl trace
  refine ⟨?_, live.slots, ?_⟩
  · intro pc
    rw [predict_eq_advice live.sound, state_foldl_fresh narrow]
  · intro br taken
    have own : br.pc.sameSlot (trace.foldl update (fresh (2 ^ k))).indexBits br.pc = true :=
      beq_self_eq_true _
    rw [predict_eq_advice (live.update br).sound, state_update live, if_pos own]
    exact SlotState.advice_next_of_taken _ taken

/-- A branch that loses its hold of a slot and gets it back before another branch of
the slot is not taken. -/
def regrasped : List Branch :=
  [⟨.ofNat 0x1000, .ofNat 0x40, true⟩, ⟨.ofNat 0x1000, .ofNat 0x40, false⟩,
    ⟨.ofNat 0x1000, .ofNat 0x80, true⟩, ⟨.ofNat 0x2000, .ofNat 0xC0, false⟩]

/-- The counter has gone from two to one and back, and the slot is held weakly. -/
theorem predict_eq_advice_after_regrasped :
    1 ≤ maxIndexBits ∧ SlotState.after 1 (.ofNat 0x1000) regrasped = .weak 0x400 (.ofNat 0x80) ∧
      (⟨.ofNat 0x2000, .ofNat 0xC0, true⟩ : Branch).taken = true ∧
      ∃ b, ofSize (2 ^ 1) = .ok b ∧
        (regrasped.foldl update b).predict (.ofNat 0x1000) = .jump (.ofNat 0x80) ∧
        ((regrasped.foldl update b).slots.get 0).Live ∧
        ((regrasped.foldl update b).update ⟨.ofNat 0x2000, .ofNat 0xC0, true⟩).predict
          (.ofNat 0x2000) = .jump (.ofNat 0xC0) := by
  have weak : SlotState.after 1 (.ofNat 0x1000) regrasped = .weak 0x400 (.ofNat 0x80) := by
    decide
  obtain ⟨b, built, holds⟩ := predict_eq_advice_after (k := 1) (by decide)
  obtain ⟨predicted, live, regained⟩ := holds regrasped
  refine ⟨by decide, weak, rfl, b, built, ?_, live 0, regained _ rfl⟩
  rw [predicted, weak]
  rfl

end CounterBuffer

end BranchPrediction
