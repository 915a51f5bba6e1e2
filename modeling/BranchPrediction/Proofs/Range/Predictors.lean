import BranchPrediction.Proofs.Fresh
import BranchPrediction.Proofs.Range.Cells
/-!
# Sound predictors

A predictor is sound if the cells it can reach are cells of its tables and if
the values in its tables are in range. Each variant has its own account of
that, because each has its own tables; an account covers every address and
every history, so that it speaks of predictions and of updates alike.

The fresh predictor of a valid configuration is sound, and a resolved branch
keeps it so: an update changes neither a size nor an index width.

## Main definitions

* `Bimodal.Sound`, `GShare.Sound`, `GatedGShare.Sound`, `TwoLevel.Sound`,
  `Perceptron.Sound`: the direction predictors
* `TargetBuffer.Sound`, `CounterBuffer.Sound`: the target buffers

## Main results

* `sound_fresh` and `Sound.update` for each of them
-/

namespace BranchPrediction

theorem Addr.wordIndex_lt_two_pow (pc : Addr) {n : Nat} (narrow : n ≤ maxIndexBits) :
    pc.wordIndex n < 2 ^ n := by
  have fits : n ≤ 64 := Nat.le_trans narrow (by decide)
  have bound := pc.wordIndex_lt n
  rwa [Nat.min_eq_left fits] at bound

theorem IndexScheme.index_lt_two_pow (s : IndexScheme) (pc : Addr) (h : History) {n : Nat}
    (narrow : n ≤ maxIndexBits) : s.index pc h n < 2 ^ n := by
  have fits : n ≤ 64 := Nat.le_trans narrow (by decide)
  have bound := s.index_lt pc h n
  rwa [Nat.min_eq_left fits] at bound

/-- Every history of a valid configuration fits in a machine word. -/
theorem Config.Valid.historyLength_le_register {c : Config} (valid : c.Valid) :
    c.historyLength ≤ HistoryHolder.register.limit := by
  have held := valid.historyLength_le
  cases holder : c.historyHolder with
  | localTable =>
    rw [holder] at held
    exact Nat.le_trans held (by decide)
  | register =>
    rw [holder] at held
    exact held

/-- Every address has a cell in the table indexed by address. -/
theorem Config.Valid.wordIndex_lt_entries {c : Config} (valid : c.Valid) (pc : Addr) :
    pc.wordIndex c.indexBits < c.entries := by
  have bound := pc.wordIndex_lt_two_pow valid.indexBits_le
  rwa [← valid.entries_eq] at bound

/-! ## Counters selected by address -/

/-- Every address has a counter, and every counter is in range. -/
structure Bimodal.Sound (c : Config) (p : Bimodal) : Prop where
  index_lt : ∀ pc, p.index pc < p.counters.size
  counters : p.counters.All (Counter.Within c.counterBits)

theorem Bimodal.sound_fresh {c : Config} (valid : c.Valid) : (Bimodal.fresh c).Sound c where
  index_lt pc := by
    rw [fresh, Table.size_fresh]
    exact valid.wordIndex_lt_entries pc
  counters := Table.all_fresh _ (Counter.within_ofBits _ _)

theorem Bimodal.Sound.update {c : Config} {p : Bimodal} (sound : p.Sound c) (br : Branch) :
    (p.update br).Sound c where
  index_lt pc := by
    rw [Bimodal.update, Table.size_modify]
    exact sound.index_lt pc
  counters := sound.counters.modify _ fun _ within => within.train br.taken

/-! ## Counters selected by address and global history -/

/-- Every address has a counter under every history, and counters and history
are in range. A prediction and an update may select different counters. -/
structure GShare.Sound (c : Config) (p : GShare) : Prop where
  index_lt : ∀ pc h, p.scheme.index pc h p.indexBits < p.counters.size
  counters : p.counters.All (Counter.Within c.counterBits)
  history : p.history.Within c.historyLength

theorem GShare.sound_fresh {c : Config} (valid : c.Valid) (scheme : IndexScheme)
    (order : ShiftOrder) : (GShare.fresh c scheme order).Sound c where
  index_lt pc h := by
    rw [fresh, Table.size_fresh]
    exact scheme.index_lt_two_pow pc h valid.phtIndexBits_le
  counters := Table.all_fresh _ (Counter.within_ofBits _ _)
  history := History.within_ofLength _

theorem GShare.Sound.update {c : Config} (valid : c.Valid) {p : GShare} (sound : p.Sound c)
    (br : Branch) : (p.update br).Sound c where
  index_lt pc h := by
    rw [GShare.update, Table.size_modify]
    exact sound.index_lt pc h
  counters := sound.counters.modify _ fun _ within => within.train br.taken
  history := sound.history.shifted valid.historyLength_le_register br.taken

theorem GShare.Sound.trainingIndex_lt {c : Config} {p : GShare} (sound : p.Sound c)
    (br : Branch) : p.trainingIndex br < p.counters.size :=
  sound.index_lt br.pc _

/-! ## Target buffers -/

/-- Every address has a slot. -/
structure TargetBuffer.Sound (b : TargetBuffer) : Prop where
  slot_lt : ∀ pc : Addr, pc.wordIndex b.indexBits < b.slots.size
  /-- The index leaves room for a tag. -/
  indexBits_le : b.indexBits ≤ maxIndexBits

/-- A table of `2 ^ k` slots is indexed by `k` bits. -/
theorem TargetBuffer.indexBits_fresh {k : Nat} (narrow : k ≤ maxIndexBits) :
    (TargetBuffer.fresh (2 ^ k)).indexBits = k :=
  Config.indexWidth_two_pow k (Nat.le_trans narrow (by decide))

theorem TargetBuffer.sound_fresh_two_pow {k : Nat} (narrow : k ≤ maxIndexBits) :
    (TargetBuffer.fresh (2 ^ k)).Sound where
  slot_lt pc := by
    rw [indexBits_fresh narrow, fresh, Table.size_fresh]
    exact pc.wordIndex_lt_two_pow narrow
  indexBits_le := by
    rw [indexBits_fresh narrow]
    exact narrow

theorem TargetBuffer.sound_fresh {c : Config} (valid : c.Valid) :
    (TargetBuffer.fresh c.btbEntries).Sound := by
  rw [valid.btbEntries_eq]
  exact sound_fresh_two_pow valid.btbIndexBits_le

theorem TargetBuffer.Sound.update {b : TargetBuffer} (sound : b.Sound) (br : Branch) :
    (b.update br).Sound where
  slot_lt pc := by
    have size : (b.update br).slots.size = b.slots.size := by
      unfold TargetBuffer.update
      split
      · exact Table.size_modify _ _ _
      · rfl
    rw [TargetBuffer.indexBits_update, size]
    exact sound.slot_lt pc
  indexBits_le := by
    rw [TargetBuffer.indexBits_update]
    exact sound.indexBits_le

/-- Every address has a slot, and every counter beside a target is in range. -/
structure CounterBuffer.Sound (b : CounterBuffer) : Prop where
  slot_lt : ∀ pc : Addr, pc.wordIndex b.indexBits < b.slots.size
  /-- The index leaves room for a tag. -/
  indexBits_le : b.indexBits ≤ maxIndexBits
  /-- Every counter has two bits, those of unused slots included. -/
  counters : b.slots.All fun e => e.counter.Within slotCounterBits

theorem CounterBuffer.indexBits_fresh {k : Nat} (narrow : k ≤ maxIndexBits) :
    (CounterBuffer.fresh (2 ^ k)).indexBits = k :=
  Config.indexWidth_two_pow k (Nat.le_trans narrow (by decide))

theorem CounterBuffer.sound_fresh_two_pow {k : Nat} (narrow : k ≤ maxIndexBits) :
    (CounterBuffer.fresh (2 ^ k)).Sound where
  slot_lt pc := by
    rw [indexBits_fresh narrow, fresh, Table.size_fresh]
    exact pc.wordIndex_lt_two_pow narrow
  indexBits_le := by
    rw [indexBits_fresh narrow]
    exact narrow
  counters := Table.all_fresh _ (Counter.within_ofBits _ _)

theorem CounterBuffer.sound_fresh {c : Config} (valid : c.Valid) :
    (CounterBuffer.fresh c.btbEntries).Sound := by
  rw [valid.btbEntries_eq]
  exact sound_fresh_two_pow valid.btbIndexBits_le

/-- A slot either trains its counter or takes a fresh one. -/
theorem CounterEntry.within_update {e : CounterEntry} (tag : Nat) (br : Branch)
    (within : e.counter.Within slotCounterBits) :
    (e.update tag br).counter.Within slotCounterBits := by
  unfold CounterEntry.update
  split
  · split
    · exact within.train true
    · split
      · exact Counter.within_ofBits _ _
      · exact within.train false
  · split
    · exact Counter.within_ofBits _ _
    · exact within

theorem CounterBuffer.Sound.update {b : CounterBuffer} (sound : b.Sound) (br : Branch) :
    (b.update br).Sound where
  slot_lt pc := by
    rw [CounterBuffer.update, Table.size_modify]
    exact sound.slot_lt pc
  indexBits_le := sound.indexBits_le
  counters := sound.counters.modify _ fun _ within => CounterEntry.within_update _ br within

/-! ## Counters gated by a private target buffer -/

/-- Both parts are sound. -/
structure GatedGShare.Sound (c : Config) (p : GatedGShare) : Prop where
  gshare : p.gshare.Sound c
  buffer : p.buffer.Sound

theorem GatedGShare.sound_fresh {c : Config} (valid : c.Valid) :
    (GatedGShare.fresh c).Sound c :=
  ⟨GShare.sound_fresh valid _ _, TargetBuffer.sound_fresh valid⟩

theorem GatedGShare.Sound.update {c : Config} (valid : c.Valid) {p : GatedGShare}
    (sound : p.Sound c) (br : Branch) : (p.update br).Sound c :=
  ⟨sound.gshare.update valid br, sound.buffer.update br⟩

/-! ## Counters selected by local history -/

/-- Every address has a local history, every local history has a counter, and
both are in range. -/
structure TwoLevel.Sound (c : Config) (p : TwoLevel) : Prop where
  slot_lt : ∀ pc, p.slot pc < p.histories.size
  histories : p.histories.All (History.Within c.historyLength)
  /-- Every history of that length selects a counter. -/
  bits_lt : ∀ h : History, h.Within c.historyLength → h.bits < p.counters.size
  counters : p.counters.All (Counter.Within c.counterBits)

theorem TwoLevel.sound_fresh {c : Config} (valid : c.Valid) : (TwoLevel.fresh c).Sound c where
  slot_lt pc := by
    rw [fresh, Table.size_fresh]
    exact valid.wordIndex_lt_entries pc
  histories := Table.all_fresh _ (History.within_ofLength _)
  bits_lt h within := by
    rw [fresh, Table.size_fresh]
    exact within.bits_lt
  counters := Table.all_fresh _ (Counter.within_ofBits _ _)

theorem TwoLevel.Sound.update {c : Config} (valid : c.Valid) {p : TwoLevel} (sound : p.Sound c)
    (br : Branch) : (p.update br).Sound c where
  slot_lt pc := by
    rw [TwoLevel.update, Table.size_modify]
    exact sound.slot_lt pc
  histories := sound.histories.modify _ fun _ within =>
    within.shifted valid.historyLength_le_register br.taken
  bits_lt h within := by
    rw [TwoLevel.update, Table.size_modify]
    exact sound.bits_lt h within
  counters := sound.counters.modify _ fun _ within => within.train br.taken

theorem TwoLevel.Sound.localHistory_lt {c : Config} {p : TwoLevel} (sound : p.Sound c)
    (pc : Addr) : (p.localHistory pc).bits < p.counters.size :=
  sound.bits_lt _ (sound.histories _)

/-! ## Rows of weights -/

/-- Every address has a row under every history, and rows and history are in
range. -/
structure Perceptron.Sound (c : Config) (p : Perceptron) : Prop where
  index_lt : ∀ pc h, p.scheme.index pc h p.indexBits < p.rows.size
  rows : p.rows.All (Row.Within c.historyLength c.weightBits)
  history : p.history.Within c.historyLength

theorem Perceptron.sound_fresh {c : Config} (valid : c.Valid) : (Perceptron.fresh c).Sound c where
  index_lt pc h := by
    rw [fresh, Table.size_fresh, valid.entries_eq]
    exact IndexScheme.index_lt_two_pow _ pc h valid.indexBits_le
  rows := Table.all_fresh _ (Row.within_zero _ _)
  history := History.within_ofLength _

theorem Perceptron.Sound.update {c : Config} (valid : c.Valid) {p : Perceptron}
    (sound : p.Sound c) (br : Branch) : (p.update br).Sound c := by
  have history := sound.history.shifted valid.historyLength_le_register br.taken
  unfold Perceptron.update
  dsimp only
  split
  · refine ⟨fun pc h => ?_, ?_, history⟩
    · rw [Table.size_modify]
      exact sound.index_lt pc h
    · exact sound.rows.modify _ fun _ within =>
        within.train valid.weightBits_le p.history br.taken
  · exact ⟨sound.index_lt, sound.rows, history⟩

/-- A partial sum of a row stays clear of the ends of the 32-bit range. -/
theorem Perceptron.Sound.natAbs_partialSum_lt {c : Config} (valid : c.Valid) {p : Perceptron}
    (sound : p.Sound c) (i : Nat) (h : History) {k : Nat}
    (terms : k ≤ (p.rowAt i).weights.size) : ((p.rowAt i).partialSum h k).natAbs < 2 ^ 31 := by
  have within : (p.rowAt i).Within c.historyLength c.weightBits := sound.rows i
  have bounds := within.partialSum_mem h k
  have few : k + 1 ≤ 65 := by
    have := valid.historyLength_le_register
    rw [within.size_eq] at terms
    simp only [HistoryHolder.limit] at this
    omega
  -- at most 65 terms of 15 bits each
  have small : ((k : Int) + 1) * 2 ^ (c.weightBits - 1) ≤ 65 * 2 ^ 15 :=
    Int.mul_le_mul (by omega) (two_pow_pred_le valid.weightBits_le)
      (Int.le_of_lt (two_pow_pred_pos _)) (by decide)
  omega

end BranchPrediction
