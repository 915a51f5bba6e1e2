import BranchPrediction.Proofs.Range.Predictors
/-!
# The last taken branch

What a target buffer holds after a run is a matter of the last taken branch of
each slot. Its slot holds that branch if there was one, and otherwise what it
held before. An index and a tag together are a word address, so a hit means
that the last taken branch of the slot is a branch at the very same word.

## Main definitions

* `lastTaken`: the last taken branch of a trace at addresses of some kind
* `Addr.sameSlot`, `Addr.sameWord`: the kinds of address that matter

## Main results

* `TargetBuffer.lookup_foldl_eq_some_iff`: what a target buffer holds after a run
* `TargetBuffer.lastTaken_of_lookup_foldl`: where a held target comes from
-/

namespace BranchPrediction

/-- Whether two addresses select the same cell of a table of `2 ^ n` cells. -/
def Addr.sameSlot (n : Nat) (a b : Addr) : Bool :=
  b.wordIndex n == a.wordIndex n

/-- Whether two addresses agree in all bits above the low two. -/
def Addr.sameWord (a b : Addr) : Bool :=
  b.word == a.word

/-- The last branch of a trace that was taken at an address of some kind. -/
def lastTaken (kind : Addr → Bool) (trace : List Branch) : Option Branch :=
  (trace.filter fun br => br.taken && kind br.pc).getLast?

section LastTaken

variable {kind : Addr → Bool} {trace : List Branch} {br : Branch}

@[simp]
theorem lastTaken_nil : lastTaken kind [] = none :=
  rfl

theorem lastTaken_append (first second : List Branch) :
    lastTaken kind (first ++ second) = (lastTaken kind second).or (lastTaken kind first) := by
  unfold lastTaken
  rw [List.filter_append, List.getLast?_append]

theorem lastTaken_cons (br : Branch) (trace : List Branch) :
    lastTaken kind (br :: trace) =
      (lastTaken kind trace).or (if br.taken && kind br.pc then some br else none) := by
  have split : lastTaken kind ([br] ++ trace) = _ := lastTaken_append [br] trace
  rw [List.singleton_append] at split
  rw [split]
  by_cases counts : br.taken && kind br.pc <;> simp [lastTaken, counts]

/-- The last taken branch is a taken branch of the trace. -/
theorem mem_of_lastTaken (found : lastTaken kind trace = some br) :
    br ∈ trace ∧ br.taken = true ∧ kind br.pc = true := by
  have member := List.mem_of_getLast? found
  rw [List.mem_filter, Bool.and_eq_true] at member
  exact member

/-- Narrowing the kind of address keeps the last taken branch if it is of the
narrow kind. -/
theorem lastTaken_of_imp {narrow : Addr → Bool} (imp : ∀ a, narrow a = true → kind a = true)
    (found : lastTaken kind trace = some br) (holds : narrow br.pc = true) :
    lastTaken narrow trace = some br := by
  -- the narrow kind picks from what the wide kind picks
  have narrowed : (trace.filter fun b => b.taken && narrow b.pc) =
      (trace.filter fun b => b.taken && kind b.pc).filter fun b => narrow b.pc := by
    rw [List.filter_filter]
    congr 1
    funext b
    cases wide : kind b.pc with
    | true => simp [Bool.and_comm]
    | false =>
      have : narrow b.pc ≠ true := fun inside => by simp [imp _ inside] at wide
      simp [this]
  -- and keeps the last of them
  obtain ⟨before, split⟩ := List.getLast?_eq_some_iff.mp found
  unfold lastTaken
  rw [narrowed, split, List.filter_append]
  simp [holds]

end LastTaken

/-! ## Slots and words -/

/-- Branches of one word select one slot. -/
theorem Addr.sameSlot_of_sameWord (n : Nat) {a b : Addr} (same : a.sameWord b = true) :
    a.sameSlot n b = true := by
  unfold sameWord at same
  unfold sameSlot wordIndex
  rw [beq_iff_eq] at same ⊢
  rw [same]

/-- In one slot the tag tells words apart. -/
theorem Addr.tag_eq_iff_sameWord {n : Nat} (narrow : n ≤ maxIndexBits) {a b : Addr}
    (same : a.sameSlot n b = true) : b.tag n = a.tag n ↔ a.sameWord b = true := by
  have room : n ≤ 30 := Nat.le_trans narrow (by decide)
  unfold sameSlot at same
  unfold sameWord
  rw [beq_iff_eq] at same ⊢
  rw [b.word_eq_tag_wordIndex room, a.word_eq_tag_wordIndex room, same]
  constructor
  · intro tags
    rw [tags]
  · intro words
    exact Nat.eq_of_mul_eq_mul_right (Nat.two_pow_pos n) (Nat.add_right_cancel words)

/-! ## Target buffers -/

namespace TargetBuffer

/-- The slot that a taken branch leaves. -/
def entryOf (n : Nat) (br : Branch) : TargetEntry :=
  ⟨true, br.pc.tag n, br.target⟩

theorem Sound.foldl {b : TargetBuffer} (sound : b.Sound) (trace : List Branch) :
    (trace.foldl TargetBuffer.update b).Sound :=
  List.foldlRecOn trace TargetBuffer.update sound fun _ sound br _ => sound.update br

theorem indexBits_foldl (b : TargetBuffer) (trace : List Branch) :
    (trace.foldl update b).indexBits = b.indexBits :=
  List.foldlRecOn (motive := fun t => t.indexBits = b.indexBits) trace update rfl
    fun t same br _ => (indexBits_update t br).trans same

/-- A slot holds its last taken branch. -/
theorem slot_foldl {b : TargetBuffer} (sound : b.Sound) (trace : List Branch) (pc : Addr) :
    (trace.foldl update b).slot pc =
      ((lastTaken (pc.sameSlot b.indexBits) trace).map (entryOf b.indexBits)).getD
        (b.slot pc) := by
  induction trace generalizing b with
  | nil => rfl
  | cons br trace ih =>
    rw [List.foldl_cons, ih (sound.update br), indexBits_update, lastTaken_cons,
      slot_update b br pc (sound.slot_lt br.pc)]
    cases lastTaken (pc.sameSlot b.indexBits) trace with
    | some later => rfl
    | none =>
      -- no later branch took the slot, so this one decides
      by_cases taken : br.taken <;>
        by_cases same : br.pc.wordIndex b.indexBits = pc.wordIndex b.indexBits <;>
          simp [Addr.sameSlot, entryOf, taken, same]

theorem lookup_eq_some_iff {b : TargetBuffer} {pc target : Addr} :
    b.lookup pc = some target ↔
      (b.slot pc).valid = true ∧ (b.slot pc).tag = pc.tag b.indexBits ∧
        (b.slot pc).target = target := by
  unfold lookup
  dsimp only
  split
  · next hit => simp [hit]
  · next miss =>
    constructor
    · intro found
      cases found
    · rintro ⟨valid, tag, -⟩
      exact absurd ⟨valid, tag⟩ miss

theorem lookup_fresh (entries : Nat) (pc : Addr) : (fresh entries).lookup pc = none := by
  unfold lookup slot fresh
  rw [Table.get_fresh]
  rfl

/-- A buffer holds a target after a run if the last taken branch of the slot has
that target and is a branch of the same word, or if no branch of the slot was
taken and the buffer held the target before. -/
theorem lookup_foldl_eq_some_iff {b : TargetBuffer} (sound : b.Sound) (trace : List Branch)
    (pc target : Addr) :
    (trace.foldl update b).lookup pc = some target ↔
      match lastTaken (pc.sameSlot b.indexBits) trace with
      | some br => pc.sameWord br.pc = true ∧ br.target = target
      | none => b.lookup pc = some target := by
  rw [lookup_eq_some_iff, indexBits_foldl, slot_foldl sound]
  cases found : lastTaken (pc.sameSlot b.indexBits) trace with
  | none => exact lookup_eq_some_iff.symm
  | some br =>
    -- the branch is known to share the slot, and a hit adds the tag
    have same := (mem_of_lastTaken found).2.2
    have tags := Addr.tag_eq_iff_sameWord sound.indexBits_le same
    simp [entryOf, tags]

/-- A target held after a run, if none was held before, is that of the last
taken branch of the word. -/
theorem lastTaken_of_lookup_foldl {b : TargetBuffer} (sound : b.Sound) {pc target : Addr}
    (absent : b.lookup pc = none) {trace : List Branch}
    (found : (trace.foldl update b).lookup pc = some target) :
    ∃ br, lastTaken pc.sameWord trace = some br ∧ br.target = target := by
  have held := (lookup_foldl_eq_some_iff sound trace pc target).mp found
  cases last : lastTaken (pc.sameSlot b.indexBits) trace with
  | none =>
    simp only [last, absent] at held
    cases held
  | some br =>
    simp only [last] at held
    have narrowed := lastTaken_of_imp
      (fun a => Addr.sameSlot_of_sameWord (a := pc) (b := a) b.indexBits) last held.1
    exact ⟨br, narrowed, held.2⟩

end TargetBuffer

end BranchPrediction
