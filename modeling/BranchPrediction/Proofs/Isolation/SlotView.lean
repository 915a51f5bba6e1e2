import BranchPrediction.Proofs.Targets.Containment
/-!
# A table seen from one branch

A table that is indexed by addresses shows each branch one of its slots, or, if
the slots are tagged, as much of a slot as belongs to the branch. What is shown
depends on the branches of that slot and on nothing else: a resolved branch of
another slot leaves it as it is, and a resolved branch of the slot moves it in a
way that needs no other part of the table.

So a run of a table, seen from one branch, is a run of the view alone, and only
the branches of one slot take part in it.

## Main definitions

* `branchesAt`: the branches of a trace that select the slot of an address
* `SlotView`: how a table of slots shows to each branch
* `SlotView.Lawful`: views move on their own
* `Bimodal.slotView`, `TargetBuffer.slotView`, `CounterBuffer.slotView`: the
  three tables

## Main results

* `SlotView.Lawful.view_foldl`: a run of a table, seen from one branch
-/

namespace BranchPrediction

/-! ## Branches of one slot -/

/-- Wider indices tell more addresses apart. -/
theorem Addr.sameSlot_of_le {narrow wide : Nat} (le : narrow ≤ wide) {a b : Addr}
    (same : a.sameSlot wide b = true) : a.sameSlot narrow b = true := by
  simp only [sameSlot, wordIndex, and_mask, beq_iff_eq] at same ⊢
  -- the narrow index is what is left of the wide one
  have divides : 2 ^ min narrow 64 ∣ 2 ^ min wide 64 := Nat.pow_dvd_pow 2 (by omega)
  rw [← Nat.mod_mod_of_dvd b.word divides, ← Nat.mod_mod_of_dvd a.word divides, same]

/-- The branches of a trace that select the slot of `pc` in a table of `2 ^ n`
slots. -/
def branchesAt (n : Nat) (pc : Addr) (trace : List Branch) : List Branch :=
  trace.filter fun br => pc.sameSlot n br.pc

section BranchesAt

variable {n : Nat} {pc : Addr} {br : Branch}

theorem branchesAt_cons_of_same (trace : List Branch) (same : pc.sameSlot n br.pc = true) :
    branchesAt n pc (br :: trace) = br :: branchesAt n pc trace := by
  simp [branchesAt, same]

theorem branchesAt_cons_of_other (trace : List Branch) (other : pc.sameSlot n br.pc = false) :
    branchesAt n pc (br :: trace) = branchesAt n pc trace := by
  simp [branchesAt, other]

theorem branchesAt_append (first second : List Branch) :
    branchesAt n pc (first ++ second) = branchesAt n pc first ++ branchesAt n pc second := by
  simp [branchesAt]

/-- The branches of a slot are among those of the slot of a smaller table. -/
theorem branchesAt_branchesAt {narrow wide : Nat} (le : narrow ≤ wide) (pc : Addr)
    (trace : List Branch) :
    branchesAt wide pc (branchesAt narrow pc trace) = branchesAt wide pc trace := by
  unfold branchesAt
  rw [List.filter_filter]
  congr 1
  funext br
  cases same : pc.sameSlot wide br.pc with
  | true => simp [Addr.sameSlot_of_le le same]
  | false => rfl

end BranchesAt

/-! ## Views -/

/-- How a table of slots shows to each branch. -/
structure SlotView (σ τ : Type) where
  indexBits : σ → Nat
  /-- What the branch at an address sees of the table. -/
  view : σ → Addr → τ
  /-- What a resolved branch of its slot does to what the branch at an address
  sees. -/
  move : Addr → τ → Branch → τ
  update : σ → Branch → σ

namespace SlotView

variable {σ τ : Type} {m : SlotView σ τ} {Inv : σ → Prop} {s : σ}

/-- A resolved branch moves the views of its own slot and no others. The first
two fields keep `Inv` and the index width through a run. -/
structure Lawful (m : SlotView σ τ) (Inv : σ → Prop) : Prop where
  update : ∀ {s}, Inv s → ∀ br, Inv (m.update s br)
  indexBits_update : ∀ s br, m.indexBits (m.update s br) = m.indexBits s
  view_update : ∀ {s}, Inv s → ∀ br pc,
    m.view (m.update s br) pc =
      if pc.sameSlot (m.indexBits s) br.pc then m.move pc (m.view s pc) br else m.view s pc

/-- A run of the table, seen from the branch at `pc`, is a run of its view over
the branches of its slot. -/
theorem Lawful.view_foldl (lawful : m.Lawful Inv) (inv : Inv s) (trace : List Branch)
    (pc : Addr) :
    m.view (trace.foldl m.update s) pc =
      (branchesAt (m.indexBits s) pc trace).foldl (m.move pc) (m.view s pc) := by
  induction trace generalizing s with
  | nil => rfl
  | cons br trace ih =>
    rw [List.foldl_cons, ih (lawful.update inv br), lawful.indexBits_update,
      lawful.view_update inv]
    cases same : pc.sameSlot (m.indexBits s) br.pc with
    | true => simp [branchesAt_cons_of_same trace same]
    | false =>
      -- a branch of another slot changes nothing and is not listed
      simp [branchesAt_cons_of_other trace same]

/-- Branches of other slots may come and go. -/
theorem Lawful.view_foldl_congr (lawful : m.Lawful Inv) (inv : Inv s) {pc : Addr}
    {trace trace' : List Branch}
    (same : branchesAt (m.indexBits s) pc trace = branchesAt (m.indexBits s) pc trace') :
    m.view (trace.foldl m.update s) pc = m.view (trace'.foldl m.update s) pc := by
  rw [lawful.view_foldl inv, lawful.view_foldl inv, same]

end SlotView

/-! ## Counters selected by address -/

/-- A counter is shown to every branch of its slot. -/
def Bimodal.slotView : SlotView Bimodal Counter where
  indexBits := indexBits
  view := counter
  move _ k br := k.train br.taken
  update := update

theorem Bimodal.lawful_slotView (c : Config) : slotView.Lawful (Sound c) where
  update sound br := sound.update br
  indexBits_update _ _ := rfl
  view_update {p} sound br pc := by
    change (p.update br).counter pc =
      if pc.sameSlot p.indexBits br.pc then (p.counter pc).train br.taken else p.counter pc
    simp only [Addr.sameSlot, beq_iff_eq]
    exact Table.get_modify _ _ _ _ (sound.index_lt br.pc)

/-! ## Target buffers -/

namespace TargetBuffer

/-- What a branch of its slot does to the target that is held for the branch at
`pc`. A taken branch takes the slot over. -/
def lookupAfter (pc : Addr) (held : Option Addr) (br : Branch) : Option Addr :=
  if br.taken then
    if pc.sameWord br.pc then some br.target else none
  else held

/-- A target is shown to the branches of its word. -/
def slotView : SlotView TargetBuffer (Option Addr) where
  indexBits := indexBits
  view := lookup
  move := lookupAfter
  update := update

theorem lookup_update {b : TargetBuffer} (sound : b.Sound) (br : Branch) (pc : Addr) :
    (b.update br).lookup pc =
      if pc.sameSlot b.indexBits br.pc then lookupAfter pc (b.lookup pc) br
      else b.lookup pc := by
  unfold lookup
  rw [indexBits_update, slot_update b br pc (sound.slot_lt br.pc)]
  cases same : pc.sameSlot b.indexBits br.pc with
  | true =>
    -- in one slot the tags compare the words
    have tags := Addr.tag_eq_iff_sameWord sound.indexBits_le same
    have slots : br.pc.wordIndex b.indexBits = pc.wordIndex b.indexBits := beq_iff_eq.mp same
    cases taken : br.taken <;> simp [lookupAfter, slots, tags, taken]
  | false =>
    have slots : br.pc.wordIndex b.indexBits ≠ pc.wordIndex b.indexBits := by
      simpa [Addr.sameSlot] using same
    simp [slots]

theorem lawful_slotView : slotView.Lawful Sound where
  update sound br := sound.update br
  indexBits_update := indexBits_update
  view_update sound br pc := lookup_update sound br pc

end TargetBuffer

/-! ## Target buffers with counters -/

namespace CounterEntry

/-- What a slot holds for the branch with a given tag: its target and its
counter. -/
def heldFor (e : CounterEntry) (tag : Nat) : Option (Addr × Counter) :=
  if e.hits tag then some (e.target, e.counter) else none

/-- What a branch does to what its own slot holds for it. -/
def heldAfter (br : Branch) : Option (Addr × Counter) → Option (Addr × Counter)
  | some (target, counter) =>
    if br.taken then some (br.target, counter.increment)
    else if counter.value ≤ 1 then none
    else some (target, counter.decrement)
  | none => if br.taken then some (br.target, Counter.weaklyTaken slotCounterBits) else none

variable {e : CounterEntry} {tag tag' : Nat}

/-- A branch moves what its own slot holds for it. -/
theorem heldFor_update_self (e : CounterEntry) (tag : Nat) (br : Branch) :
    (e.update tag br).heldFor tag = heldAfter br (e.heldFor tag) := by
  unfold update heldFor
  cases hit : e.hits tag with
  | true =>
    obtain ⟨valid, owner⟩ := hits_iff.mp hit
    cases taken : br.taken with
    | true => simp [heldAfter, hits, valid, owner, taken]
    | false =>
      by_cases low : e.counter.value ≤ 1
      · simp [heldAfter, hits, empty, taken, low]
      · simp [heldAfter, hits, valid, owner, taken, low]
  | false =>
    cases taken : br.taken with
    | true => simp [heldAfter, hits, taken]
    | false => simp [heldAfter, hit, taken]

/-- A taken branch with another tag takes the slot over. One that is not taken
changes the slot only if the slot is its own. -/
theorem heldFor_update_other (other : tag' ≠ tag) (br : Branch) :
    (e.update tag' br).heldFor tag = if br.taken then none else e.heldFor tag := by
  unfold update heldFor
  cases hit : e.hits tag' with
  | true =>
    obtain ⟨-, owner⟩ := hits_iff.mp hit
    have miss : e.hits tag = false := by simp [hits, owner, other]
    cases taken : br.taken with
    | true => simp [hits, owner, other]
    | false =>
      rw [miss]
      by_cases low : e.counter.value ≤ 1
      · simp [low, hits, empty]
      · simp [low, hits, owner, other]
  | false => cases taken : br.taken <;> simp [hits, other]

end CounterEntry

namespace CounterBuffer

/-- The target and the counter that a buffer holds for the branch at `pc`. -/
def held (b : CounterBuffer) (pc : Addr) : Option (Addr × Counter) :=
  (b.slot pc).heldFor (pc.tag b.indexBits)

/-- What a branch of its slot does to what is held for the branch at `pc`. -/
def heldAfter (pc : Addr) (held : Option (Addr × Counter)) (br : Branch) :
    Option (Addr × Counter) :=
  if pc.sameWord br.pc then CounterEntry.heldAfter br held
  else if br.taken then none
  else held

/-- A target and its counter are shown to the branches of their word. -/
def slotView : SlotView CounterBuffer (Option (Addr × Counter)) where
  indexBits := indexBits
  view := held
  move := heldAfter
  update := update

theorem held_update {b : CounterBuffer} (sound : b.Sound) (br : Branch) (pc : Addr) :
    (b.update br).held pc =
      if pc.sameSlot b.indexBits br.pc then heldAfter pc (b.held pc) br else b.held pc := by
  unfold held
  rw [indexBits_update, slot_update b br pc (sound.slot_lt br.pc)]
  cases same : pc.sameSlot b.indexBits br.pc with
  | true =>
    have tags := Addr.tag_eq_iff_sameWord sound.indexBits_le same
    have slots : br.pc.wordIndex b.indexBits = pc.wordIndex b.indexBits := beq_iff_eq.mp same
    rw [if_pos slots, if_pos rfl, heldAfter]
    cases word : pc.sameWord br.pc with
    | true =>
      rw [tags.mpr word, if_pos rfl]
      exact CounterEntry.heldFor_update_self _ _ br
    | false =>
      have other : br.pc.tag b.indexBits ≠ pc.tag b.indexBits := by simp [tags, word]
      rw [if_neg Bool.false_ne_true]
      exact CounterEntry.heldFor_update_other other br
  | false =>
    have slots : br.pc.wordIndex b.indexBits ≠ pc.wordIndex b.indexBits := by
      simpa [Addr.sameSlot] using same
    simp [slots]

theorem lawful_slotView : slotView.Lawful Sound where
  update sound br := sound.update br
  indexBits_update := indexBits_update
  view_update sound br pc := held_update sound br pc

/-- A buffer predicts from what it holds. -/
theorem lookup_eq_held (b : CounterBuffer) (pc : Addr) :
    (b.lookup pc).map (·.target) = (b.held pc).map Prod.fst := by
  unfold lookup held CounterEntry.heldFor
  dsimp only
  split <;> rfl

theorem predict_eq_held (b : CounterBuffer) (pc : Addr) :
    b.predict pc =
      .ofTarget? pc (((b.held pc).filter fun h => h.2.predictsTaken).map Prod.fst) := by
  unfold predict lookup held CounterEntry.heldFor
  dsimp only
  split
  · rw [Option.filter_some, Option.filter_some]
    split <;> rfl
  · rfl

end CounterBuffer

end BranchPrediction
