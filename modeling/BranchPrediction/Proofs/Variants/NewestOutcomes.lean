import BranchPrediction.Proofs.Counters.Renaming
import BranchPrediction.Proofs.Steady.Histories
/-!
# History beyond the index

An index mixes in at most as many outcomes as it has bits. Cutting a long
history off at the index width and folding a short one therefore come to the
same: a global predictor that cuts its history off predicts what a predictor
does that keeps no more outcomes than its index has bits, whether that one cuts
off or folds.

The shorter register is the longer one seen through a window at its new end. An
outcome that enters moves both alike, and what it pushes out of the shorter
register is what leaves the window of the longer one.

## Main definitions

* `History.newest`: the newest outcomes as a register of their own
* `Config.shortened`: a configuration without the older outcomes
* `GShare.SeesNewest`: a predictor beside one that keeps its newest outcomes only

## Main results

* `History.newest_shifted`: the newest outcomes move on their own
* `IndexScheme.index_newest`: an index depends on the newest outcomes only
* `GShare.predict_eq_of_newest`: the counters and predictions of fresh predictors
-/

namespace BranchPrediction

/-! ## The newest outcomes -/

namespace History

/-- The register of the `n` newest outcomes, or of all if there are fewer. -/
def newest (h : History) (n : Nat) : History :=
  withValue (min h.len n) h.bits

variable {len : Nat} {h : History}

@[simp]
theorem len_newest (h : History) (n : Nat) : (h.newest n).len = min h.len n :=
  rfl

theorem bit_newest (h : History) (n i : Nat) :
    (h.newest n).bit i = (decide (i < min (min h.len n) 64) && h.bit i) :=
  testBit_and_mask _ _ _

/-- Nothing was recorded, so nothing is new. -/
theorem newest_ofLength (len n : Nat) : (ofLength len).newest n = ofLength (min len n) :=
  History.ext (Nat.zero_and _) rfl

/-- An outcome that enters a register enters the newest outcomes alike. -/
theorem newest_shifted (h : History) (taken : Bool) (n : Nat) :
    (h.shifted taken).newest n = (h.newest n).shifted taken := by
  apply History.ext
  · apply Nat.eq_of_testBit_eq
    intro i
    change ((h.shifted taken).newest n).bit i = ((h.newest n).shifted taken).bit i
    rw [bit_newest, bit_shifted, bit_shifted, bit_newest, len_shifted, len_newest]
    by_cases inside : i < min (min h.len n) 64
    · -- in the window both record what was recorded one place below
      have recorded : i < min h.len 64 := by omega
      rw [decide_eq_true inside, decide_eq_true recorded, Bool.true_and, Bool.true_and,
        Bool.true_and]
      cases i with
      | zero => rfl
      | succ i =>
        have below : i < min (min h.len n) 64 := by omega
        change h.bit i = (decide (i < min (min h.len n) 64) && h.bit i)
        rw [decide_eq_true below, Bool.true_and]
    · rw [decide_eq_false inside, Bool.false_and, Bool.false_and]
  · rfl

theorem Within.newest (within : h.Within len) (fits : len ≤ 64) (n : Nat) :
    (h.newest n).Within (min len n) := by
  have bound := and_mask_lt h.bits (min len n)
  refine ⟨congrArg (min · n) within.len_eq, ?_⟩
  rw [Nat.min_eq_left (Nat.le_trans (Nat.min_le_left _ _) fits)] at bound
  rw [History.newest, within.len_eq]
  exact bound

/-- The newest outcomes are the low bits of a register. -/
theorem Within.bits_newest (within : h.Within len) (n : Nat) :
    (h.newest n).bits = h.lowBits n := by
  apply Nat.eq_of_testBit_eq
  intro i
  change (h.newest n).bit i = _
  rw [bit_newest, lowBits, testBit_and_mask, within.len_eq]
  by_cases recorded : i < len
  · have same : i < min (min len n) 64 ↔ i < min n 64 := by omega
    rw [decide_eq_decide.mpr same]
    rfl
  · -- past the end there is nothing to see, in the window or out of it
    have clear : h.bits.testBit i = false := within.bit_eq_false (Nat.le_of_not_lt recorded)
    rw [bit, clear, Bool.and_false, Bool.and_false]

end History

/-! ## Indices -/

namespace IndexScheme

variable {s : IndexScheme} {h : History} {len n : Nat}

/-- A history that is not longer than the index is mixed in as it is, whatever
the scheme does to longer ones. -/
theorem index_of_short (mixes : s ≠ .direct) (within : h.Within len) (nonempty : 0 < len)
    (short : len ≤ n) (narrow : n ≤ 64) (pc : Addr) :
    s.index pc h n = pc.wordIndex n ^^^ h.bits := by
  have fits : h.bits < 2 ^ n :=
    Nat.lt_of_lt_of_le within.bits_lt (Nat.pow_le_pow_right (by decide) short)
  cases s with
  | direct => exact absurd rfl mixes
  | xor => rw [index, History.lowBits, and_mask_of_lt narrow fits]
  | folded =>
    rw [index, within.len_eq, foldHistory_of_le nonempty short,
      and_mask_of_lt (Nat.le_trans short narrow) within.bits_lt, and_mask_of_lt narrow fits]

/-- An index that cuts the history off depends on the newest outcomes only. -/
theorem index_newest (mixes : s ≠ .direct) (within : h.Within len) (nonempty : 0 < len)
    (fits : len ≤ 64) (wide : 0 < n) (narrow : n ≤ 64) (pc : Addr) :
    s.index pc (h.newest n) n = IndexScheme.xor.index pc h n := by
  have window := within.newest fits n
  rw [index_of_short mixes window (Nat.lt_min.mpr ⟨nonempty, wide⟩) (Nat.min_le_right _ _)
    narrow, within.bits_newest, index]

end IndexScheme

/-! ## Predictors -/

/-- The configuration whose history is no longer than the index is wide. -/
def Config.shortened (c : Config) : Config :=
  { c with historyLength := min c.historyLength c.phtIndexBits }

theorem Config.Valid.shortened {c : Config} (valid : c.Valid) : c.shortened.Valid :=
  { valid with
    historyLength_pos := Nat.le_min.mpr ⟨valid.historyLength_pos, valid.phtIndexBits_pos⟩
    historyLength_le := Nat.le_trans (Nat.min_le_left _ _) valid.historyLength_le }

namespace GShare

/-- A predictor that cuts its history off at the index width, beside one that
keeps the newest outcomes only and mixes them in by any scheme. -/
structure SeesNewest (c : Config) (order : ShiftOrder) (p q : GShare) : Prop where
  left : p.Sound c ∧ p.order = order
  right : q.Sound c.shortened ∧ q.order = order
  scheme_eq : p.scheme = .xor
  mixes : q.scheme ≠ .direct
  indexBits_eq : p.indexBits = c.phtIndexBits
  indexBits_eq' : q.indexBits = c.phtIndexBits
  history_eq : q.history = p.history.newest c.phtIndexBits

namespace SeesNewest

variable {c : Config} {order : ShiftOrder} {p q : GShare}

/-- Both select one cell under a history and under its newest outcomes. -/
theorem index_eq (valid : c.Valid) (sees : SeesNewest c order p q) {h : History}
    (within : h.Within c.historyLength) (pc : Addr) :
    q.scheme.index pc (h.newest c.phtIndexBits) q.indexBits = p.scheme.index pc h p.indexBits := by
  have narrow : c.phtIndexBits ≤ 64 := Nat.le_trans valid.phtIndexBits_le (by decide)
  rw [sees.indexBits_eq, sees.indexBits_eq', sees.scheme_eq]
  exact IndexScheme.index_newest sees.mixes within valid.historyLength_pos
    valid.historyLength_le_register valid.phtIndexBits_pos narrow pc

/-- The histories under which a branch trains are related as the others are. -/
theorem trainingHistory_eq (sees : SeesNewest c order p q) (br : Branch) :
    q.trainingHistory br = (p.trainingHistory br).newest c.phtIndexBits := by
  unfold trainingHistory
  rw [sees.left.2, sees.right.2, sees.history_eq]
  cases order with
  | shiftFirst =>
    -- the outcome has entered both registers, and the window with it
    exact (History.newest_shifted _ _ _).symm
  | shiftLast => rfl

theorem within_trainingHistory (valid : c.Valid) (sees : SeesNewest c order p q) (br : Branch) :
    (p.trainingHistory br).Within c.historyLength := by
  have within := sees.left.1.history
  unfold trainingHistory
  split
  · exact within.shifted valid.historyLength_le_register br.taken
  · exact within

theorem update (valid : c.Valid) (sees : SeesNewest c order p q) (br : Branch) :
    SeesNewest c order (p.update br) (q.update br) where
  left := ⟨sees.left.1.update valid br, sees.left.2⟩
  right := ⟨sees.right.1.update valid.shortened br, sees.right.2⟩
  scheme_eq := sees.scheme_eq
  mixes := sees.mixes
  indexBits_eq := sees.indexBits_eq
  indexBits_eq' := sees.indexBits_eq'
  history_eq := by
    change q.history.shifted br.taken = (p.history.shifted br.taken).newest _
    rw [sees.history_eq, History.newest_shifted]

/-- The cells have the same names in both tables. -/
theorem renames (valid : c.Valid) (order : ShiftOrder) :
    counterUse.Renames counterUse c.counterBits (fun p => p.Sound c ∧ p.order = order)
      (fun q => q.Sound c.shortened ∧ q.order = order) (fun _ => True) id (SeesNewest c order) where
  lawful := lawful_counterUse valid order
  lawful' := lawful_counterUse valid.shortened order
  injective := Function.injective_id
  left sees := sees.left
  right sees := sees.right
  consulted_eq {p q} sees pc _ := by
    change q.scheme.index pc q.history q.indexBits = p.scheme.index pc p.history p.indexBits
    rw [sees.history_eq]
    exact sees.index_eq valid sees.left.1.history pc
  trained_eq {p q} sees br _ := by
    change q.scheme.index br.pc (q.trainingHistory br) q.indexBits =
      p.scheme.index br.pc (p.trainingHistory br) p.indexBits
    rw [sees.trainingHistory_eq]
    exact sees.index_eq valid (sees.within_trainingHistory valid br) br.pc
  update sees br _ := sees.update valid br

end SeesNewest

/-- Fresh counters are all alike, and fresh histories have recorded nothing. -/
theorem mirrors_fresh {c : Config} (valid : c.Valid) (order : ShiftOrder) {scheme : IndexScheme}
    (mixes : scheme ≠ .direct) :
    counterUse.Mirrors counterUse id (SeesNewest c order) (fresh c .xor order)
      (fresh c.shortened scheme order) where
  related :=
    { left := ⟨sound_fresh valid .xor order, rfl⟩
      right := ⟨sound_fresh valid.shortened scheme order, rfl⟩
      scheme_eq := rfl
      mixes := mixes
      indexBits_eq := rfl
      indexBits_eq' := rfl
      history_eq := (History.newest_ofLength _ _).symm }
  get_eq _ := (Table.get_fresh _ _ _).trans (Table.get_fresh _ _ _).symm

/-- **History beyond the index is never seen.** Let one fresh predictor cut its
history off at the index width, and let another one keep as many outcomes as
its index has bits, or as many as the first one if those are fewer. Whether the
second one folds its history or cuts it off, after every trace the two hold the
same counters and predict the same. So a history that is not longer than the
index is folded to no effect, and a longer one is kept in vain. -/
theorem predict_eq_of_newest {c : Config} (accepted : c.validate = .ok ()) (order : ShiftOrder) :
    ∃ p, withScheme c .xor order = .ok p ∧ ∀ scheme, scheme ≠ .direct →
      ∃ q, withScheme c.shortened scheme order = .ok q ∧
        ∀ trace : List Branch,
          (∀ i, (trace.foldl update q).counterAt i = (trace.foldl update p).counterAt i) ∧
          ∀ pc, (trace.foldl update q).predict pc = (trace.foldl update p).predict pc := by
  have valid := (Config.validate_eq_ok_iff c).mp accepted
  refine ⟨fresh c .xor order, withScheme_of_valid valid .xor order, ?_⟩
  intro scheme mixes
  refine ⟨fresh c.shortened scheme order, withScheme_of_valid valid.shortened scheme order, ?_⟩
  intro trace
  have renames := SeesNewest.renames valid order
  have all : ∀ br ∈ trace, True := fun _ _ => trivial
  have mirrors := mirrors_fresh valid order mixes
  constructor
  · intro i
    exact (mirrors.foldl renames all).get_eq i
  · intro pc
    exact mirrors.predict_foldl renames all trivial

/-- The longest history over an index of two bits. -/
def longest : Config :=
  { kind := .gshare, entries := 1, historyLength := 64, phtIndexBits := 2, btbEntries := 1 }

/-- A branch that is taken twice, falls through, and is taken once more. -/
def hesitant : List Branch :=
  [true, true, false, true].map fun taken => ⟨.ofNat 0x1000, .ofNat 0x40, taken⟩

/-- The longer register holds more and the predictor knows no more. -/
theorem predict_eq_of_newest_longest :
    longest.validate = .ok () ∧ IndexScheme.folded ≠ .direct ∧
      longest.shortened.historyLength = 2 ∧ ∃ p q, withScheme longest .xor .shiftLast = .ok p ∧
        withScheme longest.shortened .folded .shiftLast = .ok q ∧
        (hesitant.foldl update p).history.bits = 0b1101 ∧
        (hesitant.foldl update q).history.bits = 0b01 ∧
        (∀ i, (hesitant.foldl update q).counterAt i = (hesitant.foldl update p).counterAt i) ∧
        (hesitant.foldl update q).predict (.ofNat 0x1008) =
          (hesitant.foldl update p).predict (.ofNat 0x1008) ∧
        (hesitant.foldl update p).predict (.ofNat 0x1008) = false := by
  have mixes : IndexScheme.folded ≠ .direct := by decide
  obtain ⟨p, built, short⟩ := predict_eq_of_newest (c := longest) rfl .shiftLast
  obtain ⟨q, built', same⟩ := short .folded mixes
  obtain ⟨counters, predictions⟩ := same hesitant
  refine ⟨rfl, mixes, rfl, p, q, built, built', ?_, ?_, counters, predictions _, ?_⟩
  · cases built
    decide
  · cases built'
    decide
  · cases built
    decide

end GShare

end BranchPrediction
