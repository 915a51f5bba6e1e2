import Mathlib.Data.Nat.Bitwise
import BranchPrediction.Proofs.Run
import BranchPrediction.Proofs.Steady.Counters
import BranchPrediction.Proofs.Variants.NewestOutcomes
/-!
# A branch on its own

As long as one branch resolves and no other, the global history is the history
of that branch. A two-level predictor selects a counter by it directly, a global
predictor mixes the address in first. The address is always the same, so that
only gives every counter another name: the exclusive or with a fixed word is
undone by itself, and no two histories meet in one cell.

The global predictor has to shift last, as the two-level predictor does, and its
index has to take in the whole history.

## Main definitions

* `Config.overGlobal`: the configuration that replaces local history by global
* `TwoLevel.Alone`: a two-level predictor beside a global one, for one branch

## Main results

* `TwoLevel.Alone.renames`: both select corresponding cells
* `PredictionUnit.predict_eq_overGlobal`: the predictions of fresh units
-/

namespace BranchPrediction

/-- The configuration of a global predictor that hashes and shifts last. -/
def Config.overGlobal (c : Config) : Config :=
  { c with kind := .gshare, useHashing := true, historyUpdate := some .shiftLast }

theorem Config.Valid.overGlobal {c : Config} (valid : c.Valid) : c.overGlobal.Valid :=
  { valid with historyLength_le := valid.historyLength_le_register }

/-! ## Counters -/

namespace TwoLevel

/-- A two-level predictor beside a global one that has recorded the outcomes of
the branch at `pc` and nothing else. -/
structure Alone (c : Config) (pc : Addr) (p : TwoLevel) (q : GShare) : Prop where
  left : p.Sound c
  right : q.Sound c.overGlobal ∧ q.order = .shiftLast
  scheme_eq : q.scheme = .xor
  indexBits_eq : q.indexBits = c.phtIndexBits
  history_eq : q.history = p.localHistory pc

namespace Alone

variable {c : Config} {pc : Addr} {p : TwoLevel} {q : GShare}

/-- The global predictor finds the counter of a history under the exclusive or
of that history and the address. -/
theorem index_eq (valid : c.Valid) (short : c.historyLength ≤ c.phtIndexBits)
    (alone : Alone c pc p q) :
    q.index pc = pc.wordIndex c.phtIndexBits ^^^ (p.localHistory pc).bits := by
  have narrow : c.phtIndexBits ≤ 64 := Nat.le_trans valid.phtIndexBits_le (by decide)
  have mixes : q.scheme ≠ .direct := by
    rw [alone.scheme_eq]
    decide
  rw [GShare.index, alone.indexBits_eq, alone.history_eq]
  exact IndexScheme.index_of_short mixes (alone.left.histories _) valid.historyLength_pos short
    narrow pc

theorem update (valid : c.Valid) (alone : Alone c pc p q) {br : Branch} (here : br.pc = pc) :
    Alone c pc (p.update br) (q.update br) where
  left := alone.left.update valid br
  right := ⟨alone.right.1.update valid.overGlobal br, alone.right.2⟩
  scheme_eq := alone.scheme_eq
  indexBits_eq := alone.indexBits_eq
  history_eq := by
    subst here
    rw [localHistory_update_self alone.left, ← alone.history_eq]
    rfl

/-- The cells of the branch differ by its address. -/
theorem renames (valid : c.Valid) (short : c.historyLength ≤ c.phtIndexBits) (pc : Addr) :
    counterUse.Renames GShare.counterUse c.counterBits (Sound c)
      (fun q => q.Sound c.overGlobal ∧ q.order = .shiftLast) (· = pc)
      (pc.wordIndex c.phtIndexBits ^^^ ·) (Alone c pc) where
  lawful := lawful_counterUse valid
  lawful' := GShare.lawful_counterUse valid.overGlobal .shiftLast
  injective := Nat.xor_right_injective
  left alone := alone.left
  right alone := alone.right
  consulted_eq {p q} alone pc' here := by
    subst here
    exact alone.index_eq valid short
  trained_eq {p q} alone br here := by
    subst here
    -- shifting last, the global predictor trains what it consulted
    rw [GShare.trainsConsulted c.overGlobal alone.right br]
    exact alone.index_eq valid short
  update alone br here := alone.update valid here

/-- Fresh counters are all alike, and fresh histories have recorded nothing. -/
theorem mirrors_fresh (valid : c.Valid) (pc : Addr) :
    counterUse.Mirrors GShare.counterUse (pc.wordIndex c.phtIndexBits ^^^ ·) (Alone c pc)
      (fresh c) (.fresh c.overGlobal .xor .shiftLast) where
  related :=
    { left := sound_fresh valid
      right := ⟨GShare.sound_fresh valid.overGlobal .xor .shiftLast, rfl⟩
      scheme_eq := rfl
      indexBits_eq := rfl
      history_eq := (Table.get_fresh _ _ _).symm }
  get_eq _ := (Table.get_fresh _ _ _).trans (Table.get_fresh _ _ _).symm

/-- The two predict the branch alike after every run of it. -/
theorem predict_foldl (valid : c.Valid) (short : c.historyLength ≤ c.phtIndexBits)
    {trace : List Branch} (here : ∀ br ∈ trace, br.pc = pc) :
    (trace.foldl TwoLevel.update (fresh c)).predict pc =
      (trace.foldl GShare.update (.fresh c.overGlobal .xor .shiftLast)).predict pc := by
  have mirrors := mirrors_fresh valid pc
  exact (mirrors.predict_foldl (renames valid short pc) here rfl).symm

end Alone

end TwoLevel

/-! ## Units -/

namespace PredictionUnit

/-- **On its own a branch has one history.** The units of a two-level predictor
and of a global predictor that hashes and shifts last, with an index that is
not narrower than the history, predict a branch alike after every run in which
no other branch resolved. -/
theorem predict_eq_overGlobal {c : Config} (accepted : c.validate = .ok ())
    (kind : c.kind = .twoLevel) (short : c.historyLength ≤ c.phtIndexBits) :
    ∃ u v, ofConfig c = .ok u ∧ ofConfig c.overGlobal = .ok v ∧
      ∀ (pc : Addr) (trace : List Branch), (∀ br ∈ trace, br.pc = pc) →
        (u.after trace).predict pc = (v.after trace).predict pc := by
  have valid := (Config.validate_eq_ok_iff c).mp accepted
  have twoLevel : (fresh c).direction = some (.twoLevel (.fresh c)) := by
    simp only [fresh, DirectionPredictor.fresh, kind]
  have global : (fresh c.overGlobal).direction =
      some (.gshare (.fresh c.overGlobal .xor .shiftLast)) := rfl
  refine ⟨fresh c, fresh c.overGlobal, ofConfig_of_valid valid,
    ofConfig_of_valid valid.overGlobal, ?_⟩
  intro pc trace here
  apply predict_after_congr twoLevel global rfl
  · rw [DirectionPredictor.foldl_twoLevel, DirectionPredictor.foldl_gshare]
    exact TwoLevel.Alone.predict_foldl valid short here
  · -- neither of the two keeps targets of its own
    rw [DirectionPredictor.foldl_twoLevel, DirectionPredictor.foldl_gshare]
    rfl

/-- Local histories that fill the index of the global predictor. -/
def exactFit : Config :=
  { kind := .twoLevel, entries := 1, historyLength := 2, phtIndexBits := 2, btbEntries := 1 }

/-- A branch that is taken every other time, and the target that it goes to
every time. -/
def everyOther (n : Nat) : List Branch :=
  (List.range n).map fun k => ⟨.ofNat 0x100C, .ofNat 0x40, k % 2 == 1⟩

/-- Both units learn the turns of an alternating branch. -/
theorem predict_eq_overGlobal_everyOther :
    exactFit.validate = .ok () ∧ exactFit.kind = .twoLevel ∧
      exactFit.historyLength ≤ exactFit.phtIndexBits ∧
      (∀ br ∈ everyOther 7, br.pc = .ofNat 0x100C) ∧
      ∃ u v, ofConfig exactFit = .ok u ∧ ofConfig exactFit.overGlobal = .ok v ∧
        (u.after (everyOther 7)).predict (.ofNat 0x100C) = .jump (.ofNat 0x40) ∧
        (v.after (everyOther 7)).predict (.ofNat 0x100C) = .jump (.ofNat 0x40) ∧
        (v.after (everyOther 8)).predict (.ofNat 0x100C) = .fallThrough (.ofNat 0x100C) := by
  have short : exactFit.historyLength ≤ exactFit.phtIndexBits := by decide
  have odd : ∀ br ∈ everyOther 7, br.pc = .ofNat 0x100C := by decide
  have even : ∀ br ∈ everyOther 8, br.pc = .ofNat 0x100C := by decide
  obtain ⟨u, v, built, built', alike⟩ := predict_eq_overGlobal (c := exactFit) rfl rfl short
  have turns : (u.after (everyOther 7)).predict (.ofNat 0x100C) = .jump (.ofNat 0x40) ∧
      (u.after (everyOther 8)).predict (.ofNat 0x100C) = .fallThrough (.ofNat 0x100C) := by
    cases built
    decide
  exact ⟨rfl, rfl, short, odd, u, v, built, built', turns.1, (alike _ _ odd).symm.trans turns.1,
    (alike _ _ even).symm.trans turns.2⟩

end PredictionUnit

end BranchPrediction
