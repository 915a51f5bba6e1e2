import BranchPrediction.Proofs.Isolation.IndexFields
import BranchPrediction.Proofs.Isolation.SlotView
/-!
# Programs at other addresses

Let every branch of a program move by the same distance, a multiple of the
number of cells of the largest table, and let addresses wrap at the end of
memory. Index fields stay what they are, and so does the relation of being the
same word, so a unit cannot tell the two programs apart: it gives the same
directions and serves the same targets at the same moments. The two alignment
bits of an address take no part in any of this and may be different every time.

Direction predictors read index fields only, so they even go through the same
states. Target buffers do not, since their tags move with the addresses. What
stays the same is what they show: a buffer shows to a branch what the other one
shows to the branch that it has become.

## Main definitions

* `Addr.Relocated`, `Branch.Relocated`, `Cycle.Relocated`: moved by an offset
* `SlotView.Relocated`: tables that show the same to corresponding branches
* `PredictionUnit.Relocated`: units with such tables

## Main results

* `SlotView.Relocated.update`, `PredictionUnit.Relocated.tick`: what a step keeps
* `PredictionUnit.Relocated.exists_predict_eq`: what the answers have in common
-/

namespace BranchPrediction

/-! ## Addresses -/

/-- The words are `offset` apart, where words are counted modulo the size of
memory. Nothing is said about the two alignment bits. -/
def Addr.Relocated (offset : Int) (a b : Addr) : Prop :=
  (b.word : Int) = (a.word + offset) % 2 ^ 30

instance (offset : Int) (a b : Addr) : Decidable (a.Relocated offset b) :=
  inferInstanceAs (Decidable (_ = _))

namespace Addr.Relocated

variable {offset : Int} {a a' b b' : Addr} {n : Nat}

/-- Index fields are not affected by the bits above them. -/
theorem wordIndex_eq (aligned : ((2 ^ n : Nat) : Int) ∣ offset) (moved : a.Relocated offset b) :
    b.wordIndex n = a.wordIndex n := by
  have := a.word_lt
  have := b.word_lt
  unfold Relocated at moved
  simp only [wordIndex, and_mask]
  by_cases narrow : n ≤ 30
  · have divides : ((2 ^ n : Nat) : Int) ∣ 2 ^ 30 := by
      exact_mod_cast Nat.pow_dvd_pow 2 narrow
    have same : (b.word : Int) % (2 ^ n : Nat) = a.word % (2 ^ n : Nat) := by
      obtain ⟨k, rfl⟩ := aligned
      rw [moved, Int.emod_emod_of_dvd _ divides, Int.add_mul_emod_self_left]
    rw [Nat.min_eq_left (by omega)]
    exact_mod_cast same
  · -- an index that wide takes in the whole word, and the word does not move
    have whole : (2 ^ 30 : Int) ∣ offset := by
      have divides : (2 ^ 30 : Int) ∣ ((2 ^ n : Nat) : Int) := by
        exact_mod_cast Nat.pow_dvd_pow 2 (by omega)
      exact Int.dvd_trans divides aligned
    have : b.word = a.word := by omega
    rw [this]

theorem sameSlot_eq (aligned : ((2 ^ n : Nat) : Int) ∣ offset) (moved : a.Relocated offset b)
    (moved' : a'.Relocated offset b') : b.sameSlot n b' = a.sameSlot n a' := by
  simp only [sameSlot, moved.wordIndex_eq aligned, moved'.wordIndex_eq aligned]

/-- No two words are moved to one. -/
theorem sameWord_eq (moved : a.Relocated offset b) (moved' : a'.Relocated offset b') :
    b.sameWord b' = a.sameWord a' := by
  have := a.word_lt
  have := a'.word_lt
  unfold Relocated at moved moved'
  rw [Bool.eq_iff_iff]
  simp only [sameWord, beq_iff_eq]
  omega

end Addr.Relocated

/-- A branch of the moved program. Its target is where it was. -/
structure Branch.Relocated (offset : Int) (br br' : Branch) : Prop where
  pc : br.pc.Relocated offset br'.pc
  target_eq : br'.target = br.target
  taken_eq : br'.taken = br.taken

/-- What the moved program does in a cycle. -/
structure Cycle.Relocated (offset : Int) (t t' : Cycle) : Prop where
  query : Option.Rel (Addr.Relocated offset) t.query t'.query
  resolved : Option.Rel (Branch.Relocated offset) t.resolved t'.resolved

/-! ## Tables -/

namespace SlotView

variable {σ τ : Type} {m : SlotView σ τ} {Inv : σ → Prop} {offset : Int}

/-- Corresponding branches move a view in the same way. -/
def MovesAlike (m : SlotView σ τ) (offset : Int) : Prop :=
  ∀ {pc pc' br br'}, Addr.Relocated offset pc pc' → Branch.Relocated offset br br' →
    ∀ x, m.move pc' x br' = m.move pc x br

/-- Two states of a table that show the same to corresponding branches. -/
structure Relocated (m : SlotView σ τ) (Inv : σ → Prop) (offset : Int) (s s' : σ) : Prop where
  left : Inv s
  right : Inv s'
  /-- The offset leaves the index field alone. -/
  aligned : ((2 ^ m.indexBits s : Nat) : Int) ∣ offset
  indexBits_eq : m.indexBits s' = m.indexBits s
  view_eq : ∀ {pc pc'}, Addr.Relocated offset pc pc' → m.view s' pc' = m.view s pc

/-- A table that shows the same to every branch. -/
theorem relocated_of_blank {s : σ} {x : τ} (inv : Inv s)
    (aligned : ((2 ^ m.indexBits s : Nat) : Int) ∣ offset) (blank : ∀ pc, m.view s pc = x) :
    m.Relocated Inv offset s s where
  left := inv
  right := inv
  aligned := aligned
  indexBits_eq := rfl
  view_eq {pc pc'} _ := by
    rw [blank pc, blank pc']

/-- Corresponding branches move the same views, and move them alike. -/
theorem Relocated.update {s s' : σ} (shown : m.Relocated Inv offset s s')
    (lawful : m.Lawful Inv) (alike : m.MovesAlike offset) {br br' : Branch}
    (moved : br.Relocated offset br') :
    m.Relocated Inv offset (m.update s br) (m.update s' br') where
  left := lawful.update shown.left br
  right := lawful.update shown.right br'
  aligned := by
    rw [lawful.indexBits_update]
    exact shown.aligned
  indexBits_eq := by
    rw [lawful.indexBits_update, lawful.indexBits_update]
    exact shown.indexBits_eq
  view_eq {pc pc'} here := by
    -- the view moves in both tables or in neither
    rw [lawful.view_update shown.left, lawful.view_update shown.right, shown.indexBits_eq,
      here.sameSlot_eq shown.aligned moved.pc, shown.view_eq here, alike here moved]

end SlotView

theorem TargetBuffer.movesAlike (offset : Int) : slotView.MovesAlike offset := by
  intro pc pc' br br' here moved held
  change lookupAfter pc' held br' = lookupAfter pc held br
  simp only [lookupAfter, here.sameWord_eq moved.pc, moved.taken_eq, moved.target_eq]

theorem CounterBuffer.movesAlike (offset : Int) : slotView.MovesAlike offset := by
  intro pc pc' br br' here moved held
  have own : CounterEntry.heldAfter br' held = CounterEntry.heldAfter br held := by
    cases held <;> simp only [CounterEntry.heldAfter, moved.taken_eq, moved.target_eq]
  change heldAfter pc' held br' = heldAfter pc held br
  simp only [heldAfter, here.sameWord_eq moved.pc, moved.taken_eq, own]

/-! ## Target caches -/

theorem Prediction.ofTarget?_eq (pc : Addr) (target : Option Addr) :
    Prediction.ofTarget? pc target = ⟨target.isSome, target.getD pc.next⟩ := by
  cases target <;> rfl

/-- Two caches of one kind that show the same to corresponding branches. -/
inductive TargetCache.Relocated (offset : Int) : TargetCache → TargetCache → Prop
  | counters {b b' : CounterBuffer}
      (shown : CounterBuffer.slotView.Relocated CounterBuffer.Sound offset b b') :
      Relocated offset (counterIntegrated b) (counterIntegrated b')
  | targets {b b' : TargetBuffer}
      (shown : TargetBuffer.slotView.Relocated TargetBuffer.Sound offset b b') :
      Relocated offset (targetOnly b) (targetOnly b')

namespace TargetCache.Relocated

variable {offset : Int} {t t' : TargetCache}

theorem update (moved : t.Relocated offset t') {br br' : Branch}
    (branch : br.Relocated offset br') : (t.update br).Relocated offset (t'.update br') := by
  cases moved with
  | counters shown =>
    exact .counters (shown.update CounterBuffer.lawful_slotView (CounterBuffer.movesAlike offset)
      branch)
  | targets shown =>
    exact .targets (shown.update TargetBuffer.lawful_slotView (TargetBuffer.movesAlike offset)
      branch)

theorem lookup_eq (moved : t.Relocated offset t') {pc pc' : Addr}
    (here : pc.Relocated offset pc') : t'.lookup pc' = t.lookup pc := by
  cases moved with
  | @counters b b' shown =>
    have same : b'.held pc' = b.held pc := shown.view_eq here
    simp only [lookup, CounterBuffer.lookup_eq_held, same]
  | targets shown => exact shown.view_eq here

/-- On their own, the two caches predict from one target, and only one that
they keep. -/
theorem exists_predict_eq (moved : t.Relocated offset t') {pc pc' : Addr}
    (here : pc.Relocated offset pc') :
    ∃ target, t.predict pc = .ofTarget? pc target ∧ t'.predict pc' = .ofTarget? pc' target ∧
      ∀ a, target = some a → t.lookup pc = some a := by
  cases moved with
  | @counters b b' shown =>
    have same : b'.held pc' = b.held pc := shown.view_eq here
    have other := b'.predict_eq_held pc'
    rw [same] at other
    refine ⟨_, b.predict_eq_held pc, other, ?_⟩
    intro a served
    obtain ⟨h, kept, rfl⟩ := Option.map_eq_some_iff.mp served
    simp only [lookup, CounterBuffer.lookup_eq_held, (Option.filter_eq_some_iff.mp kept).1,
      Option.map_some]
  | @targets b b' shown =>
    have same : b'.lookup pc' = b.lookup pc := shown.view_eq here
    refine ⟨b.lookup pc, rfl, ?_, fun a held => held⟩
    rw [← same]
    rfl

end TargetCache.Relocated

/-! ## Direction predictors -/

/-- Two direction predictors that are the same, up to what their private buffers
show to corresponding branches. -/
inductive DirectionPredictor.Relocated (offset : Int) :
    DirectionPredictor → DirectionPredictor → Prop
  | bare {d : DirectionPredictor} (bare : d.buffer? = none)
      (aligned : ((2 ^ d.indexBits : Nat) : Int) ∣ offset) : Relocated offset d d
  | gated {g : GShare} {b b' : TargetBuffer}
      (aligned : ((2 ^ g.indexBits : Nat) : Int) ∣ offset)
      (shown : TargetBuffer.slotView.Relocated TargetBuffer.Sound offset b b') :
      Relocated offset (gatedGShare ⟨g, b⟩) (gatedGShare ⟨g, b'⟩)

namespace DirectionPredictor.Relocated

variable {offset : Int} {d d' : DirectionPredictor}

theorem update (moved : d.Relocated offset d') {br br' : Branch}
    (branch : br.Relocated offset br') : (d.update br).Relocated offset (d'.update br') := by
  cases moved with
  | bare bare aligned =>
    -- the same state again, since index field and outcome are all that is read
    rw [update_congr bare (branch.pc.wordIndex_eq aligned) branch.taken_eq]
    refine .bare (buffer?_update_eq_none bare br) ?_
    rw [indexBits_update]
    exact aligned
  | @gated g b b' aligned shown =>
    -- so for the history and the counters, while the tags in the buffers differ
    have same := g.update_congr (branch.pc.wordIndex_eq aligned) branch.taken_eq
    have buffers := shown.update TargetBuffer.lawful_slotView (TargetBuffer.movesAlike offset)
      branch
    simp only [DirectionPredictor.update, GatedGShare.update, same]
    exact .gated aligned buffers

theorem predict_eq (moved : d.Relocated offset d') {pc pc' : Addr}
    (here : pc.Relocated offset pc') : d'.predict pc' = d.predict pc := by
  cases moved with
  | bare bare aligned => exact predict_congr bare (here.wordIndex_eq aligned)
  | @gated g b b' aligned shown =>
    have same : b'.lookup pc' = b.lookup pc := shown.view_eq here
    simp only [predict, GatedGShare.predict, g.predict_congr (here.wordIndex_eq aligned), same]

theorem predictTarget_eq (moved : d.Relocated offset d') {pc pc' : Addr}
    (here : pc.Relocated offset pc') : d'.predictTarget pc' = d.predictTarget pc := by
  cases moved with
  | bare bare aligned => simp only [DirectionPredictor.predictTarget_eq, bare, Option.bind_none]
  | gated aligned shown => exact shown.view_eq here

end DirectionPredictor.Relocated

/-! ## Units -/

namespace PredictionUnit

/-- Two units that show the same to corresponding branches. -/
structure Relocated (offset : Int) (u v : PredictionUnit) : Prop where
  direction : Option.Rel (DirectionPredictor.Relocated offset) u.direction v.direction
  targets : u.targets.Relocated offset v.targets

namespace Relocated

variable {offset : Int} {u v : PredictionUnit}

theorem update (moved : u.Relocated offset v) {br br' : Branch}
    (branch : br.Relocated offset br') : (u.update br).Relocated offset (v.update br') where
  direction := by
    have halves := moved.direction
    unfold PredictionUnit.update
    generalize u.direction = left, v.direction = right at halves ⊢
    cases halves with
    | none => exact .none
    | some directions => exact .some (directions.update branch)
  targets := moved.targets.update branch

theorem tick (moved : u.Relocated offset v) {t t' : Cycle} (cycle : t.Relocated offset t') :
    (u.tick t.query t.resolved).2.Relocated offset (v.tick t'.query t'.resolved).2 := by
  have branches := cycle.resolved
  generalize t.resolved = left, t'.resolved = right at branches ⊢
  cases branches with
  | none => exact moved
  | some branch => exact moved.update branch

theorem storedTarget_eq (moved : u.Relocated offset v) {pc pc' : Addr}
    (here : pc.Relocated offset pc') : v.storedTarget pc' = u.storedTarget pc := by
  have halves := moved.direction
  unfold storedTarget
  rw [moved.targets.lookup_eq here]
  generalize u.direction = left, v.direction = right at halves ⊢
  cases halves with
  | none => rfl
  | some directions => simp only [Option.bind_some, directions.predictTarget_eq here]

/-- Both units give one direction, and go to one target that they keep or
nowhere else. -/
theorem exists_predict_eq (moved : u.Relocated offset v) {pc pc' : Addr}
    (here : pc.Relocated offset pc') :
    ∃ taken target, u.predict pc = ⟨taken, target.getD pc.next⟩ ∧
      v.predict pc' = ⟨taken, target.getD pc'.next⟩ ∧
      ∀ a, target = some a → u.storedTarget pc = some a := by
  have halves := moved.direction
  generalize present : u.direction = left, present' : v.direction = right at halves
  cases halves with
  | none =>
    obtain ⟨target, served, served', kept⟩ := moved.targets.exists_predict_eq here
    refine ⟨target.isSome, target, ?_, ?_, ?_⟩
    · rw [predict, present, served, Prediction.ofTarget?_eq]
    · rw [predict, present', served', Prediction.ofTarget?_eq]
    · intro a found
      rw [storedTarget, present]
      exact kept a found
  | @some d e directions =>
    -- a branch that is predicted not taken is served nothing, whatever is kept
    refine ⟨d.predict pc, if d.predict pc then u.storedTarget pc else none, ?_, ?_, ?_⟩
    · rw [predict_eq_of_direction present]
      cases d.predict pc <;> rfl
    · rw [predict_eq_of_direction present', directions.predict_eq here,
        moved.storedTarget_eq here]
      cases d.predict pc <;> rfl
    · intro a found
      cases taken : d.predict pc with
      | true =>
        rw [taken] at found
        exact found
      | false =>
        rw [taken] at found
        cases found

end Relocated

end PredictionUnit

end BranchPrediction
