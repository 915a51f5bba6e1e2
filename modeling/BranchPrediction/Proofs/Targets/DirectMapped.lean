import BranchPrediction.Proofs.Targets.Containment
/-!
# Direct-mapped buffers

A target buffer of `2 ^ k` slots starts empty and is given a run of resolved
branches. Each of its slots then belongs to the last taken branch that selected it,
and index and tag together tell this branch from all others. So a lookup is answered
exactly if the branch asked for is the one that took its slot last. There are no
false hits, not even in a buffer with a single slot, and nothing is lost but to
another taken branch.

A buffer with counters of the same size that is given the same run may have emptied
a slot in the meantime, and may then have stored another branch in it. The buffer
without counters has stored that branch as well. So at every moment the first one
serves nothing that the second one does not serve.

## Main results

* `TargetBuffer.lookup_eq_some_iff_lastTaken`: what a buffer without counters holds
* `CounterBuffer.ContainedIn.predict`: a contained buffer predicts nothing else
* `CounterBuffer.served_by_targetBuffer`: what a buffer with counters serves
-/

namespace BranchPrediction

variable {k : Nat}

theorem checkTable_two_pow (field : Config.Field) (narrow : k ≤ maxIndexBits) :
    checkTable field (2 ^ k) = .ok () :=
  (checkTable_eq_ok_iff field _).mpr ⟨k, narrow, rfl⟩

/-! ## Buffers without counters -/

namespace TargetBuffer

theorem ofSize_two_pow (narrow : k ≤ maxIndexBits) : ofSize (2 ^ k) = .ok (fresh (2 ^ k)) := by
  rw [ofSize_eq, checkTable_two_pow _ narrow]
  rfl

/-- **A target buffer is a direct-mapped cache of last taken branches.** A fresh
buffer of any size that passes the checks holds a target for the branch at `pc` after
a run if and only if the last taken branch of its slot is a branch of the same word
and has this target. -/
theorem lookup_eq_some_iff_lastTaken (narrow : k ≤ maxIndexBits) :
    ∃ b, ofSize (2 ^ k) = .ok b ∧ ∀ (trace : List Branch) (pc target : Addr),
      (trace.foldl update b).lookup pc = some target ↔
        ∃ br, lastTaken (pc.sameSlot k) trace = some br ∧
          pc.sameWord br.pc = true ∧ br.target = target := by
  refine ⟨fresh (2 ^ k), ofSize_two_pow narrow, fun trace pc target => ?_⟩
  -- what the buffer held before the run is nothing
  have held := lookup_foldl_eq_some_iff (sound_fresh_two_pow narrow) trace pc target
  rw [indexBits_fresh narrow, lookup_fresh] at held
  rw [held]
  cases lastTaken (pc.sameSlot k) trace with
  | some br => simp
  | none => simp

/-- Two branches in turn, and a third one that is not taken. -/
def displaced : List Branch :=
  [⟨.ofNat 0x1000, .ofNat 0x40, true⟩, ⟨.ofNat 0x2000, .ofNat 0x80, true⟩,
    ⟨.ofNat 0x1000, .ofNat 0xC0, true⟩, ⟨.ofNat 0x3000, .ofNat 0x40, false⟩]

/-- With a single slot all branches meet. The first one won the slot back. -/
theorem lookup_eq_some_iff_lastTaken_displaced :
    0 ≤ maxIndexBits ∧ ∃ b, ofSize (2 ^ 0) = .ok b ∧
      (displaced.foldl update b).lookup (.ofNat 0x1003) = some (.ofNat 0xC0) ∧
      ∀ target, (displaced.foldl update b).lookup (.ofNat 0x2000) ≠ some target := by
  obtain ⟨b, built, holds⟩ := lookup_eq_some_iff_lastTaken (k := 0) (by decide)
  refine ⟨by decide, b, built, ?_, ?_⟩
  · exact (holds _ _ _).mpr ⟨⟨.ofNat 0x1000, .ofNat 0xC0, true⟩, by decide⟩
  · intro target held
    obtain ⟨br, last, same, -⟩ := (holds _ _ _).mp held
    obtain rfl : ⟨.ofNat 0x1000, .ofNat 0xC0, true⟩ = br := Option.some.inj last
    exact absurd same (by decide)

end TargetBuffer

/-! ## Buffers with counters -/

namespace CounterBuffer

theorem ofSize_two_pow (narrow : k ≤ maxIndexBits) : ofSize (2 ^ k) = .ok (fresh (2 ^ k)) := by
  rw [ofSize_eq, checkTable_two_pow _ narrow]
  rfl

/-- What is predicted taken is found. -/
theorem exists_lookup_of_taken {b : CounterBuffer} {pc : Addr}
    (taken : (b.predict pc).taken = true) :
    ∃ e, b.lookup pc = some e ∧ b.predict pc = .jump e.target := by
  unfold predict at taken ⊢
  cases advised : (b.lookup pc).filter fun e => e.counter.predictsTaken with
  | none =>
    rw [advised] at taken
    cases taken
  | some e => exact ⟨e, (Option.filter_eq_some_iff.mp advised).1, rfl⟩

/-- A contained buffer predicts nothing taken that is not predicted alike there. -/
theorem ContainedIn.predict {b : CounterBuffer} {t : TargetBuffer} (contained : b.ContainedIn t)
    {pc : Addr} (taken : (b.predict pc).taken = true) : t.predict pc = b.predict pc := by
  obtain ⟨e, found, prediction⟩ := exists_lookup_of_taken taken
  rw [TargetBuffer.predict, contained.lookup found, prediction]
  rfl

/-- **A buffer with counters serves nothing else.** Let two fresh buffers of one size,
with and without counters, be given the same run. What the first one holds then for a
branch the second one holds too, with the same target, and what the first one
predicts taken the second one predicts alike. -/
theorem served_by_targetBuffer (narrow : k ≤ maxIndexBits) :
    ∃ b t, CounterBuffer.ofSize (2 ^ k) = .ok b ∧ TargetBuffer.ofSize (2 ^ k) = .ok t ∧
      ∀ (trace : List Branch) (pc : Addr),
        (∀ e, (trace.foldl CounterBuffer.update b).lookup pc = some e →
          (trace.foldl TargetBuffer.update t).lookup pc = some e.target) ∧
        (((trace.foldl CounterBuffer.update b).predict pc).taken = true →
          (trace.foldl TargetBuffer.update t).predict pc =
            (trace.foldl CounterBuffer.update b).predict pc) := by
  refine ⟨fresh (2 ^ k), TargetBuffer.fresh (2 ^ k), ofSize_two_pow narrow,
    TargetBuffer.ofSize_two_pow narrow, fun trace pc => ?_⟩
  have contained := (containedIn_fresh (2 ^ k)).foldl (sound_fresh_two_pow narrow)
    (TargetBuffer.sound_fresh_two_pow narrow) trace
  exact ⟨fun e found => contained.lookup found, contained.predict⟩

/-- A branch that is given up and whose slot goes to another branch of the slot, with
a branch of the other slot before. -/
def handedOver : List Branch :=
  [⟨.ofNat 0x1004, .ofNat 0x40, true⟩, ⟨.ofNat 0x1000, .ofNat 0x80, true⟩,
    ⟨.ofNat 0x1000, .ofNat 0x80, false⟩, ⟨.ofNat 0x1000, .ofNat 0x80, false⟩,
    ⟨.ofNat 0x2000, .ofNat 0xC0, true⟩, ⟨.ofNat 0x1004, .ofNat 0x40, false⟩]

/-- The new owner is served by both buffers. The branch of the other slot is served by
the buffer without counters only, which has no opinion about its direction. -/
theorem served_by_targetBuffer_handedOver :
    1 ≤ maxIndexBits ∧ ∃ b t, CounterBuffer.ofSize (2 ^ 1) = .ok b ∧
      TargetBuffer.ofSize (2 ^ 1) = .ok t ∧
      ((handedOver.foldl CounterBuffer.update b).predict (.ofNat 0x2000)).taken = true ∧
      (handedOver.foldl TargetBuffer.update t).predict (.ofNat 0x2000) =
        (handedOver.foldl CounterBuffer.update b).predict (.ofNat 0x2000) ∧
      ((handedOver.foldl CounterBuffer.update b).predict (.ofNat 0x1004)).taken = false ∧
      (handedOver.foldl TargetBuffer.update t).lookup (.ofNat 0x1004) = some (.ofNat 0x40) := by
  obtain ⟨b, t, built, built', served⟩ := served_by_targetBuffer (k := 1) (by decide)
  have cold : b = fresh 2 := Except.ok.inj (built.symm.trans (ofSize_two_pow (by decide)))
  subst cold
  have taken : ((handedOver.foldl CounterBuffer.update (fresh 2)).predict
      (.ofNat 0x2000)).taken = true := by decide
  have weak : (handedOver.foldl CounterBuffer.update (fresh 2)).lookup (.ofNat 0x1004) =
      some ⟨true, 0x200, .ofNat 0x40, ⟨1, 3⟩⟩ := by decide
  exact ⟨by decide, fresh 2, t, built, built', taken, (served handedOver _).2 taken, by decide,
    (served handedOver _).1 _ weak⟩

end CounterBuffer

end BranchPrediction
