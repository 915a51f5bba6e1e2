import BranchPrediction.Proofs.Range.Reachable
import BranchPrediction.Proofs.Targets.LastTaken
/-!
# Target buffers with counters hold less

A buffer with counters drops a branch that stops being taken; a buffer without
counters never does. Given the same branches, the two may differ in every slot
that was emptied, but a slot in use holds the same branch and the same target
in both: a taken branch writes both alike, and a branch that is not taken
writes the second not at all.

So whatever a buffer with counters serves, a buffer without them would serve
too, and the account of the latter by last taken branches covers both.

## Main definitions

* `CounterBuffer.withoutCounters`: a buffer whose counters are forgotten
* `CounterBuffer.ContainedIn`: what is in use here is held there

## Main results

* `CounterBuffer.ContainedIn.foldl`: containment is kept by a run
* `CounterBuffer.lastTaken_of_lookup_foldl`, `TargetCache.lastTaken_of_lookup_foldl`:
  where a held target comes from
-/

namespace BranchPrediction

/-! ## Slots -/

namespace CounterEntry

/-- A slot whose counter is forgotten. -/
def withoutCounter (e : CounterEntry) : TargetEntry :=
  ⟨e.valid, e.tag, e.target⟩

variable {e : CounterEntry} {tag : Nat} {br : Branch}

theorem hits_iff : e.hits tag = true ↔ e.valid = true ∧ e.tag = tag := by
  simp [hits]

/-- A taken branch owns its slot afterwards. -/
theorem withoutCounter_update_of_taken (taken : br.taken = true) :
    (e.update tag br).withoutCounter = ⟨true, tag, br.target⟩ := by
  unfold update
  by_cases hit : e.hits tag = true
  · obtain ⟨valid, same⟩ := hits_iff.mp hit
    simp [hit, taken, withoutCounter, valid, same]
  · simp [hit, taken, withoutCounter]

/-- A branch that is not taken empties its slot or leaves branch and target
alone. -/
theorem withoutCounter_update_of_not_taken (notTaken : br.taken = false)
    (valid : (e.update tag br).valid = true) :
    (e.update tag br).withoutCounter = e.withoutCounter := by
  unfold update at valid ⊢
  by_cases hit : e.hits tag = true
  · by_cases low : e.counter.value ≤ 1
    · simp [hit, notTaken, low, empty] at valid
    · simp [hit, notTaken, low, withoutCounter]
  · simp [hit, notTaken]

end CounterEntry

/-! ## Buffers -/

namespace CounterBuffer

/-- A buffer whose counters are forgotten. -/
def withoutCounters (b : CounterBuffer) : TargetBuffer where
  slots := ⟨b.slots.cells.map (·.withoutCounter), b.slots.fill.withoutCounter⟩
  indexBits := b.indexBits

/-- The slots in use here hold the same branch and the same target there. -/
structure ContainedIn (b : CounterBuffer) (t : TargetBuffer) : Prop where
  /-- Addresses select the same slots. -/
  indexBits_eq : t.indexBits = b.indexBits
  /-- A slot in use differs by its counter only. -/
  slot_eq : ∀ pc, (b.slot pc).valid = true → t.slot pc = (b.slot pc).withoutCounter

theorem slot_withoutCounters (b : CounterBuffer) (pc : Addr) :
    b.withoutCounters.slot pc = (b.slot pc).withoutCounter := by
  simp only [withoutCounters, TargetBuffer.slot, slot, Table.get, Array.getD_eq_getD_getElem?,
    Array.getElem?_map]
  cases b.slots.cells[pc.wordIndex b.indexBits]? <;> rfl

theorem containedIn_withoutCounters (b : CounterBuffer) : b.ContainedIn b.withoutCounters :=
  ⟨rfl, fun pc _ => slot_withoutCounters b pc⟩

theorem containedIn_fresh (entries : Nat) :
    (CounterBuffer.fresh entries).ContainedIn (TargetBuffer.fresh entries) := by
  refine ⟨rfl, fun pc valid => ?_⟩
  rw [slot, fresh, Table.get_fresh] at valid
  cases valid

theorem sound_withoutCounters {b : CounterBuffer} (sound : b.Sound) :
    b.withoutCounters.Sound := by
  refine ⟨fun pc => ?_, sound.indexBits_le⟩
  rw [withoutCounters, Table.size, Array.size_map]
  exact sound.slot_lt pc

/-- A resolved branch keeps containment. -/
theorem ContainedIn.update {b : CounterBuffer} {t : TargetBuffer} (contained : b.ContainedIn t)
    (sound : b.Sound) (sound' : t.Sound) (br : Branch) :
    (b.update br).ContainedIn (t.update br) := by
  refine ⟨(TargetBuffer.indexBits_update t br).trans contained.indexBits_eq, fun pc valid => ?_⟩
  have earlier := contained.slot_eq pc
  rw [CounterBuffer.slot_update b br pc (sound.slot_lt br.pc)] at valid ⊢
  rw [TargetBuffer.slot_update t br pc (sound'.slot_lt br.pc), contained.indexBits_eq]
  -- both buffers write the slot of the branch and no other
  by_cases same : br.pc.wordIndex b.indexBits = pc.wordIndex b.indexBits
  · rw [if_pos same] at valid ⊢
    cases taken : br.taken with
    | true =>
      rw [if_pos ⟨rfl, same⟩]
      exact (CounterEntry.withoutCounter_update_of_taken taken).symm
    | false =>
      have kept := CounterEntry.withoutCounter_update_of_not_taken taken valid
      -- what is in use after a branch that is not taken was in use before it
      have used : (b.slot pc).valid = true := by
        have same := congrArg TargetEntry.valid kept
        exact same.symm.trans valid
      rw [if_neg (fun both => Bool.noConfusion both.1), kept]
      exact earlier used
  · rw [if_neg same] at valid ⊢
    rw [if_neg (fun both => same both.2)]
    exact earlier valid

theorem Sound.foldl {b : CounterBuffer} (sound : b.Sound) (trace : List Branch) :
    (trace.foldl CounterBuffer.update b).Sound :=
  List.foldlRecOn trace CounterBuffer.update sound fun _ sound br _ => sound.update br

/-- A run keeps containment. -/
theorem ContainedIn.foldl {b : CounterBuffer} {t : TargetBuffer} (contained : b.ContainedIn t)
    (sound : b.Sound) (sound' : t.Sound) (trace : List Branch) :
    (trace.foldl CounterBuffer.update b).ContainedIn (trace.foldl TargetBuffer.update t) := by
  induction trace generalizing b t with
  | nil => exact contained
  | cons br trace ih =>
    exact ih (contained.update sound sound' br) (sound.update br) (sound'.update br)

theorem lookup_eq_some_iff {b : CounterBuffer} {pc : Addr} {e : CounterEntry} :
    b.lookup pc = some e ↔
      b.slot pc = e ∧ e.valid = true ∧ e.tag = pc.tag b.indexBits := by
  unfold lookup
  dsimp only
  split
  · next hit =>
    rw [Option.some.injEq]
    constructor
    · rintro rfl
      exact ⟨rfl, CounterEntry.hits_iff.mp hit⟩
    · exact fun found => found.1
  · next miss =>
    constructor
    · intro found
      cases found
    · rintro ⟨rfl, hit⟩
      exact absurd (CounterEntry.hits_iff.mpr hit) miss

/-- A contained buffer serves nothing else. -/
theorem ContainedIn.lookup {b : CounterBuffer} {t : TargetBuffer} (contained : b.ContainedIn t)
    {pc : Addr} {e : CounterEntry} (found : b.lookup pc = some e) :
    t.lookup pc = some e.target := by
  obtain ⟨rfl, valid, tag⟩ := lookup_eq_some_iff.mp found
  rw [TargetBuffer.lookup_eq_some_iff, contained.slot_eq pc valid, contained.indexBits_eq]
  exact ⟨valid, tag, rfl⟩

theorem lookup_fresh (entries : Nat) (pc : Addr) : (fresh entries).lookup pc = none := by
  cases found : (fresh entries).lookup pc with
  | none => rfl
  | some e =>
    have held := (containedIn_fresh entries).lookup found
    rw [TargetBuffer.lookup_fresh] at held
    cases held

theorem lookup_withoutCounters (b : CounterBuffer) (pc : Addr) :
    b.withoutCounters.lookup pc = (b.lookup pc).map (·.target) := by
  cases found : b.lookup pc with
  | some e => exact b.containedIn_withoutCounters.lookup found
  | none =>
    cases held : b.withoutCounters.lookup pc with
    | none => rfl
    | some target =>
      obtain ⟨valid, tag, -⟩ := TargetBuffer.lookup_eq_some_iff.mp held
      rw [slot_withoutCounters] at valid tag
      have present : b.lookup pc = some (b.slot pc) := lookup_eq_some_iff.mpr ⟨rfl, valid, tag⟩
      rw [found] at present
      cases present

/-- A target held after a run, if none was held before, is that of the last
taken branch of the word. -/
theorem lastTaken_of_lookup_foldl {b : CounterBuffer} (sound : b.Sound) {pc : Addr}
    (absent : b.lookup pc = none) {trace : List Branch} {e : CounterEntry}
    (found : (trace.foldl update b).lookup pc = some e) :
    ∃ br, lastTaken pc.sameWord trace = some br ∧ br.target = e.target := by
  -- the buffer with its counters forgotten runs beside it and holds all of it
  have sound' := sound_withoutCounters sound
  have contained := b.containedIn_withoutCounters.foldl sound sound' trace
  have absent' : b.withoutCounters.lookup pc = none := by
    rw [lookup_withoutCounters, absent]
    rfl
  exact TargetBuffer.lastTaken_of_lookup_foldl sound' absent' (contained.lookup found)

end CounterBuffer

/-! ## Target caches -/

namespace TargetCache

theorem foldl_counterIntegrated (b : CounterBuffer) (trace : List Branch) :
    trace.foldl update (counterIntegrated b) =
      counterIntegrated (trace.foldl CounterBuffer.update b) :=
  List.foldl_hom counterIntegrated fun _ _ => rfl

theorem foldl_targetOnly (b : TargetBuffer) (trace : List Branch) :
    trace.foldl update (targetOnly b) = targetOnly (trace.foldl TargetBuffer.update b) :=
  List.foldl_hom targetOnly fun _ _ => rfl

/-- A target held after a run, if none was held before, is that of the last
taken branch of the word, whatever the kind of the cache. -/
theorem lastTaken_of_lookup_foldl {t : TargetCache} (sound : t.Sound) {pc target : Addr}
    (absent : t.lookup pc = none) {trace : List Branch}
    (found : (trace.foldl update t).lookup pc = some target) :
    ∃ br, lastTaken pc.sameWord trace = some br ∧ br.target = target := by
  cases t with
  | counterIntegrated b =>
    rw [foldl_counterIntegrated] at found
    obtain ⟨e, held, rfl⟩ := Option.map_eq_some_iff.mp found
    exact CounterBuffer.lastTaken_of_lookup_foldl sound (Option.map_eq_none_iff.mp absent) held
  | targetOnly b =>
    rw [foldl_targetOnly] at found
    exact TargetBuffer.lastTaken_of_lookup_foldl sound absent found

end TargetCache

end BranchPrediction
