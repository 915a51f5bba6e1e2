import BranchPrediction.Proofs.Counters.Renaming
import BranchPrediction.Proofs.Run
/-!
# Global history that is not hashed

A global predictor whose index is the address alone still records a history, but
never reads it. Its counters are those of a bimodal predictor with a table of
the same size, cell by cell, and so are its predictions. How long its history is
and when it takes in an outcome cannot be told from outside.

## Main definitions

* `Config.addressOnly`: the bimodal configuration of the same size
* `GShare.LikeBimodal`: a global predictor beside a bimodal one

## Main results

* `GShare.LikeBimodal.renames`: both select the same cells
* `PredictionUnit.predict_eq_addressOnly`: the predictions of fresh units
-/

namespace BranchPrediction

/-- The configuration of a bimodal predictor with the counters of a global one. -/
def Config.addressOnly (c : Config) : Config :=
  { c with kind := .bimodal, entries := 2 ^ c.phtIndexBits }

theorem Config.indexBits_addressOnly {c : Config} (valid : c.Valid) :
    c.addressOnly.indexBits = c.phtIndexBits :=
  indexWidth_two_pow _ (Nat.le_trans valid.phtIndexBits_le (by decide))

theorem Config.Valid.addressOnly {c : Config} (valid : c.Valid) : c.addressOnly.Valid :=
  { valid with
    entries_eq := congrArg (2 ^ ·) (Config.indexBits_addressOnly valid).symm
    indexBits_le := by
      rw [Config.indexBits_addressOnly valid]
      exact valid.phtIndexBits_le
    historyLength_le := valid.historyLength_le_register }

/-! ## Counters -/

namespace GShare

/-- A global predictor that does not hash, beside a bimodal one whose table has
an index of the same width. -/
structure LikeBimodal (c : Config) (order : ShiftOrder) (p : GShare) (q : Bimodal) : Prop where
  left : p.Sound c ∧ p.order = order
  right : q.Sound c.addressOnly
  scheme_eq : p.scheme = .direct
  indexBits_eq : q.indexBits = p.indexBits

namespace LikeBimodal

variable {c : Config} {order : ShiftOrder} {p : GShare} {q : Bimodal}

/-- Whatever the history, the cell is that of the address. -/
theorem index_eq (like : LikeBimodal c order p q) (pc : Addr) (h : History) :
    q.index pc = p.scheme.index pc h p.indexBits := by
  rw [Bimodal.index, like.indexBits_eq, like.scheme_eq, IndexScheme.index]

theorem update (valid : c.Valid) (like : LikeBimodal c order p q) (br : Branch) :
    LikeBimodal c order (p.update br) (q.update br) where
  left := ⟨like.left.1.update valid br, like.left.2⟩
  right := like.right.update br
  scheme_eq := like.scheme_eq
  indexBits_eq := like.indexBits_eq

/-- The cells have the same names in both tables. -/
theorem renames (valid : c.Valid) (order : ShiftOrder) :
    counterUse.Renames Bimodal.counterUse c.counterBits (fun p => p.Sound c ∧ p.order = order)
      (Bimodal.Sound c.addressOnly) (fun _ => True) id (LikeBimodal c order) where
  lawful := lawful_counterUse valid order
  lawful' := Bimodal.lawful_counterUse c.addressOnly
  injective := Function.injective_id
  left like := like.left
  right like := like.right
  consulted_eq {p _} like pc _ := like.index_eq pc p.history
  trained_eq {p _} like br _ := like.index_eq br.pc (p.trainingHistory br)
  update like br _ := like.update valid br

/-- Fresh counters are all alike. -/
theorem mirrors_fresh (valid : c.Valid) (order : ShiftOrder) :
    counterUse.Mirrors Bimodal.counterUse id (LikeBimodal c order) (fresh c .direct order)
      (Bimodal.fresh c.addressOnly) where
  related :=
    { left := ⟨sound_fresh valid .direct order, rfl⟩
      right := Bimodal.sound_fresh valid.addressOnly
      scheme_eq := rfl
      indexBits_eq := Config.indexBits_addressOnly valid }
  get_eq _ := (Table.get_fresh _ _ _).trans (Table.get_fresh _ _ _).symm

/-- The two predict alike after every run. -/
theorem predict_foldl (valid : c.Valid) (order : ShiftOrder) (trace : List Branch) (pc : Addr) :
    (trace.foldl GShare.update (fresh c .direct order)).predict pc =
      (trace.foldl Bimodal.update (Bimodal.fresh c.addressOnly)).predict pc := by
  have mirrors := mirrors_fresh valid order
  have all : ∀ br ∈ trace, True := fun _ _ => trivial
  exact (mirrors.predict_foldl (renames valid order) all trivial).symm

end LikeBimodal

end GShare

/-! ## Units -/

namespace PredictionUnit

theorem direction_fresh_of_direct {c : Config} (kind : c.kind = .gshare)
    (direct : c.useHashing = false) :
    (fresh c).direction = some (.gshare (.fresh c .direct c.shiftOrder)) := by
  simp only [fresh, DirectionPredictor.fresh, GShare.schemeOf, kind, direct]

theorem predict_after_fresh_addressOnly {c : Config} (valid : c.Valid) (kind : c.kind = .gshare)
    (direct : c.useHashing = false) (trace : List Branch) (pc : Addr) :
    ((fresh c).after trace).predict pc = ((fresh c.addressOnly).after trace).predict pc := by
  have bimodal : (fresh c.addressOnly).direction = some (.bimodal (.fresh c.addressOnly)) := rfl
  apply predict_after_congr (direction_fresh_of_direct kind direct) bimodal rfl
  · rw [DirectionPredictor.foldl_gshare, DirectionPredictor.foldl_bimodal]
    exact GShare.LikeBimodal.predict_foldl valid c.shiftOrder trace pc
  · rw [DirectionPredictor.foldl_gshare, DirectionPredictor.foldl_bimodal]
    rfl

/-- **A history that is not hashed is not seen.** The unit of a global predictor
that does not hash and the unit of a bimodal predictor with as many counters
predict the same after every run of clock cycles. The length of the history and
its shift order do not show. -/
theorem predict_eq_addressOnly {c : Config} (accepted : c.validate = .ok ())
    (kind : c.kind = .gshare) (direct : c.useHashing = false) :
    ∃ u v, ofConfig c = .ok u ∧ ofConfig c.addressOnly = .ok v ∧
      (∀ (cycles : List Cycle) (pc : Addr),
        (u.afterCycles cycles).predict pc = (v.afterCycles cycles).predict pc) ∧
      ∀ (length : Nat) (order : Option ShiftOrder), 1 ≤ length → length ≤ 64 →
        ∃ w, ofConfig { c with historyLength := length, historyUpdate := order } = .ok w ∧
          ∀ (cycles : List Cycle) (pc : Addr),
            (w.afterCycles cycles).predict pc = (u.afterCycles cycles).predict pc := by
  have valid := (Config.validate_eq_ok_iff c).mp accepted
  have alike := predict_after_fresh_addressOnly valid kind direct
  refine ⟨fresh c, fresh c.addressOnly, ofConfig_of_valid valid,
    ofConfig_of_valid valid.addressOnly, ?_, ?_⟩
  · intro cycles pc
    rw [afterCycles_eq, afterCycles_eq]
    exact alike _ pc
  · intro length order nonempty fits
    have valid' : Config.Valid { c with historyLength := length, historyUpdate := order } :=
      { valid with
        historyLength_pos := nonempty
        historyLength_le := by
          simp only [Config.historyHolder, kind]
          exact fits }
    refine ⟨fresh { c with historyLength := length, historyUpdate := order },
      ofConfig_of_valid valid', ?_⟩
    intro cycles pc
    rw [afterCycles_eq, afterCycles_eq, alike]
    -- the bimodal unit is the same for both
    exact predict_after_fresh_addressOnly valid' kind direct _ pc

/-- A long history that shifts first and is not hashed, over two counters. -/
def unhashed : Config :=
  { kind := .gshare, entries := 1, historyLength := 64, phtIndexBits := 1, useHashing := false,
    btbEntries := 1, historyUpdate := some .shiftFirst }

/-- Two branches that go opposite ways, the second one taken, and a query. -/
def opposed : List Cycle :=
  [⟨some (.ofNat 0x1000), some ⟨.ofNat 0x1000, .ofNat 0x40, false⟩⟩,
    ⟨none, some ⟨.ofNat 0x1004, .ofNat 0x80, true⟩⟩, ⟨some (.ofNat 0x1000), none⟩]

/-- Both units keep the branches apart, and so does one with a shorter history
that shifts last. -/
theorem predict_eq_addressOnly_opposed :
    unhashed.validate = .ok () ∧ unhashed.kind = .gshare ∧ unhashed.useHashing = false ∧
      ∃ u v w, ofConfig unhashed = .ok u ∧ ofConfig unhashed.addressOnly = .ok v ∧
        ofConfig { unhashed with historyLength := 1, historyUpdate := none } = .ok w ∧
        (u.afterCycles opposed).predict (.ofNat 0x1000) = .fallThrough (.ofNat 0x1000) ∧
        (v.afterCycles opposed).predict (.ofNat 0x1000) = .fallThrough (.ofNat 0x1000) ∧
        (w.afterCycles opposed).predict (.ofNat 0x1004) = .jump (.ofNat 0x80) := by
  obtain ⟨u, v, built, built', alike, unseen⟩ :=
    predict_eq_addressOnly (c := unhashed) rfl rfl rfl
  obtain ⟨w, built'', same⟩ := unseen 1 none (by decide) (by decide)
  have first : (u.afterCycles opposed).predict (.ofNat 0x1000) =
      .fallThrough (.ofNat 0x1000) := by
    cases built
    decide
  have second : (u.afterCycles opposed).predict (.ofNat 0x1004) = .jump (.ofNat 0x80) := by
    cases built
    decide
  exact ⟨rfl, rfl, rfl, u, v, w, built, built', built'', first,
    (alike opposed _).symm.trans first, (same opposed _).trans second⟩

end PredictionUnit

end BranchPrediction
