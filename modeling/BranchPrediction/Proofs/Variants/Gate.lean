import BranchPrediction.Proofs.Range.Predictors
import BranchPrediction.Proofs.Run
/-!
# The gate of a target buffer

A gated global predictor consists of a global predictor and a private target
buffer. A unit may have the same two parts in other places: the global predictor
without the gate, and the buffer as the cache that it shares. Resolved branches
change a part in the same way wherever it stands, so two such units keep the
same parts for as long as they run.

Their predictions then differ in one case. Where the buffer has no target, the
gated unit falls through, and the other one may jump to the following
instruction. Where it has one, both ask the same counter for the direction and
go to that target.

The gated unit has a shared cache as well. A branch that it predicts taken has a
target in the private buffer, so the shared one is filled and never read.

## Main definitions

* `Config.ungated`: the configuration without the gate
* `PredictionUnit.Gates`: a gated unit beside one of the same parts

## Main results

* `PredictionUnit.Gates.after`: a run keeps the parts the same
* `PredictionUnit.Gates.predict_eq`: what the gate does to a prediction
* `PredictionUnit.predict_eq_ungated`: the predictions of fresh units
-/

namespace BranchPrediction

/-- The configuration of a global predictor without a gate. The cache holds what
the private buffer held. -/
def Config.ungated (c : Config) : Config :=
  { c with kind := .gshare, targetCache := .targetOnly }

theorem Config.Valid.ungated {c : Config} (valid : c.Valid) : c.ungated.Valid :=
  { valid with historyLength_le := valid.historyLength_le_register }

theorem Config.schemeOf_ungated (c : Config) :
    GShare.schemeOf c.ungated = GatedGShare.schemeOf c := by
  unfold GatedGShare.schemeOf
  cases hashed : c.useHashing <;> simp [GShare.schemeOf, Config.ungated, hashed]

theorem Config.shiftOrder_ungated {c : Config} (kind : c.kind = .gshareBtb) :
    c.ungated.shiftOrder = c.shiftOrder := by
  simp only [Config.shiftOrder, Config.ungated, kind]

namespace PredictionUnit

/-! ## Two units of the same parts -/

/-- A gated unit asks its counters and its private buffer and never its cache:
without a private target the branch is not predicted taken in the first place. -/
theorem predict_of_gated {u : PredictionUnit} {g : GShare} {b : TargetBuffer}
    (gated : u.direction = some (.gatedGShare ⟨g, b⟩)) (pc : Addr) :
    u.predict pc = if g.predict pc then .ofTarget? pc (b.lookup pc) else .fallThrough pc := by
  have direction : (DirectionPredictor.gatedGShare ⟨g, b⟩).predict pc =
      (g.predict pc && (b.lookup pc).isSome) := rfl
  have target : (DirectionPredictor.gatedGShare ⟨g, b⟩).predictTarget pc = b.lookup pc := rfl
  simp only [predict, gated, targetOf, direction, target]
  cases b.lookup pc with
  | none =>
    -- the gate is closed, so no target is looked for
    rw [Option.isSome_none, Bool.and_false, Prediction.ofTarget?, ite_self]
    rfl
  | some found =>
    -- the target that opens the gate is the one that is taken first
    rw [Option.isSome_some, Bool.and_true, Option.some_or, Option.getD_some,
      Prediction.ofTarget?]

/-- Without a gate the counters decide alone, and the cache may have no target. -/
theorem predict_of_plain {v : PredictionUnit} {g : GShare} {b : TargetBuffer}
    (plain : v.direction = some (.gshare g)) (cache : v.targets = .targetOnly b) (pc : Addr) :
    v.predict pc =
      if g.predict pc then .jump ((b.lookup pc).getD pc.next) else .fallThrough pc := by
  simp only [predict, plain, targetOf, cache]
  rfl

/-- A unit with a gated predictor, beside a unit with the same global predictor
that has the private buffer for its cache. Nothing is said about the cache of
the gated unit. -/
inductive Gates : PredictionUnit → PredictionUnit → Prop
  | intro {u v : PredictionUnit} (g : GShare) (b : TargetBuffer)
      (gated : u.direction = some (.gatedGShare ⟨g, b⟩)) (plain : v.direction = some (.gshare g))
      (cache : v.targets = .targetOnly b) : Gates u v

namespace Gates

variable {u v : PredictionUnit}

/-- Both units hand a resolved branch to the same two parts. -/
theorem update (gates : Gates u v) (br : Branch) : Gates (u.update br) (v.update br) := by
  obtain ⟨g, b, gated, plain, cache⟩ := gates
  apply Gates.intro (g.update br) (b.update br)
  · rw [PredictionUnit.update, gated]
    rfl
  · rw [PredictionUnit.update, plain]
    rfl
  · rw [PredictionUnit.update, cache]
    rfl

theorem after (gates : Gates u v) (trace : List Branch) :
    Gates (u.after trace) (v.after trace) := by
  induction trace generalizing u v with
  | nil => exact gates
  | cons br trace ih =>
    apply ih
    exact gates.update br

/-- Another cache leaves the gate as it is. -/
theorem withTargets (gates : Gates u v) (t : TargetCache) : Gates { u with targets := t } v := by
  obtain ⟨g, b, gated, plain, cache⟩ := gates
  exact .intro g b gated plain cache

/-- A prediction passes the gate if there is a target. -/
theorem predict_eq (gates : Gates u v) (pc : Addr) :
    u.predict pc =
      if (v.targets.lookup pc).isSome then v.predict pc else .fallThrough pc := by
  obtain ⟨g, b, gated, plain, cache⟩ := gates
  rw [predict_of_gated gated, predict_of_plain plain cache, cache, TargetCache.lookup]
  cases b.lookup pc with
  | none =>
    -- whatever the counters say, there is nowhere to go
    exact ite_self _
  | some target => rfl

/-- A branch that is predicted taken goes to the target that opened the gate. -/
theorem lookup_eq_of_taken (gates : Gates u v) {pc : Addr} (taken : (u.predict pc).taken = true) :
    v.targets.lookup pc = some (u.predict pc).address := by
  obtain ⟨g, b, gated, plain, cache⟩ := gates
  rw [predict_of_gated gated] at taken ⊢
  rw [cache, TargetCache.lookup]
  by_cases counted : g.predict pc = true
  · rw [if_pos counted] at taken ⊢
    cases held : b.lookup pc with
    | none =>
      rw [held] at taken
      cases taken
    | some target => rfl
  · -- against the counters no target helps
    rw [if_neg counted] at taken
    cases taken

end Gates

/-! ## The units of a configuration -/

theorem gates_fresh {c : Config} (kind : c.kind = .gshareBtb) :
    Gates (fresh c) (fresh c.ungated) := by
  apply Gates.intro (.fresh c (GatedGShare.schemeOf c) c.shiftOrder) (.fresh c.btbEntries)
  · simp only [fresh, DirectionPredictor.fresh, kind]
    rfl
  · -- the plain predictor resolves its scheme and its shift order for itself
    have plain : (fresh c.ungated).direction =
        some (.gshare (.fresh c (GShare.schemeOf c.ungated) c.ungated.shiftOrder)) := rfl
    rw [plain, Config.schemeOf_ungated, Config.shiftOrder_ungated kind]
  · rfl

/-- **A gate takes predictions away and adds none.** The unit of a gated global
predictor predicts, after every run, what the unit without the gate predicts
from a cache without counters, as long as that cache has a target; elsewhere it
falls through. So a branch is predicted taken only to a target that is held.
Whichever cache the gated unit is given at whichever point of a run, its
predictions stay what they are. -/
theorem predict_eq_ungated {c : Config} (accepted : c.validate = .ok ())
    (kind : c.kind = .gshareBtb) :
    ∃ u v, ofConfig c = .ok u ∧ ofConfig c.ungated = .ok v ∧
      (∀ (trace : List Branch) (pc : Addr),
        (u.after trace).predict pc =
          if ((v.after trace).targets.lookup pc).isSome then (v.after trace).predict pc
          else .fallThrough pc) ∧
      (∀ (trace : List Branch) (pc : Addr), ((u.after trace).predict pc).taken = true →
        (v.after trace).targets.lookup pc = some ((u.after trace).predict pc).address) ∧
      ∀ (first second : List Branch) (t : TargetCache) (pc : Addr),
        ({ u.after first with targets := t }.after second).predict pc =
          (u.after (first ++ second)).predict pc := by
  have valid := (Config.validate_eq_ok_iff c).mp accepted
  have gates := gates_fresh kind
  refine ⟨fresh c, fresh c.ungated, ofConfig_of_valid valid, ofConfig_of_valid valid.ungated,
    ?_, ?_, ?_⟩
  · intro trace pc
    exact (gates.after trace).predict_eq pc
  · intro trace pc taken
    exact (gates.after trace).lookup_eq_of_taken taken
  · intro first second t pc
    have replaced := ((gates.after first).withTargets t).after second
    rw [after_append, replaced.predict_eq, ((gates.after first).after second).predict_eq]

/-- A gated predictor with room for one target, in the buffer and in the cache. -/
def oneTarget : Config :=
  { kind := .gshareBtb, entries := 1, historyLength := 1, phtIndexBits := 1, btbEntries := 1,
    targetCache := .counterIntegrated }

/-- A taken branch, and another one that takes its slot. -/
def displaced : List Branch :=
  [⟨.ofNat 0x1000, .ofNat 0x40, true⟩, ⟨.ofNat 0x1004, .ofNat 0x80, true⟩]

/-- The gate closes for the branch that lost its target, and the other one goes
to its own without the shared cache. -/
theorem predict_eq_ungated_displaced :
    oneTarget.validate = .ok () ∧ oneTarget.kind = .gshareBtb ∧
      ∃ u v, ofConfig oneTarget = .ok u ∧ ofConfig oneTarget.ungated = .ok v ∧
        (v.after displaced).predict (.ofNat 0x1000) = .jump (.ofNat 0x1004) ∧
        (u.after displaced).predict (.ofNat 0x1000) = .fallThrough (.ofNat 0x1000) ∧
        (u.after displaced).predict (.ofNat 0x1004) = .jump (.ofNat 0x80) ∧
        (v.after displaced).targets.lookup (.ofNat 0x1004) = some (.ofNat 0x80) ∧
        { u.after displaced with targets := .targetOnly (.fresh 1) }.predict (.ofNat 0x1004) =
          .jump (.ofNat 0x80) := by
  obtain ⟨u, v, built, built', gate, held, unread⟩ := predict_eq_ungated (c := oneTarget) rfl rfl
  have plain : (v.after displaced).predict (.ofNat 0x1000) = .jump (.ofNat 0x1004) ∧
      ((v.after displaced).targets.lookup (.ofNat 0x1000)).isSome = false := by
    cases built'
    decide
  have goes : (u.after displaced).predict (.ofNat 0x1004) = .jump (.ofNat 0x80) := by
    cases built
    decide
  have target := held displaced (.ofNat 0x1004)
  rw [goes] at target
  refine ⟨rfl, rfl, u, v, built, built', plain.1, ?_, goes, target rfl, ?_⟩
  · rw [gate, plain.2]
    rfl
  · -- an empty cache at the end of the run
    exact (unread displaced [] (.targetOnly (.fresh 1)) (.ofNat 0x1004)).trans goes

end PredictionUnit

end BranchPrediction
