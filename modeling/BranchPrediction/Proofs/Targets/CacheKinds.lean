import BranchPrediction.Proofs.Targets.Served
/-!
# The two kinds of target cache compared

Two units that differ in the kind of their target cache have the same direction
predictor, and the cache with counters holds less. So they agree on directions,
and where they predict different addresses, the unit with counters has lost the
target and falls back on the following instruction.

That costs it the target and never the direction. Only a branch whose target is
the following instruction could turn the loss into a gain; without such
branches the unit with counters misses at least as many targets.

## Main definitions

* `TargetCache.KeepsLess`, `PredictionUnit.KeepsLess`: one cache contained in another
* `Prediction.FallsShort`: a prediction that differs by a lost target
* `Stats.NoBetter`: counts that differ by missed targets

## Main results

* `PredictionUnit.KeepsLess.predict_fallsShort`: how predictions differ
* `PredictionUnit.KeepsLess.tally_noBetter`: how counts differ
* `PredictionUnit.counterIntegrated_fallsShort_of_targetOnly`: both, for the
  units of a configuration
-/

namespace BranchPrediction

/-! ## Caches -/

/-- A cache with counters beside a cache without them that holds all of it. -/
inductive TargetCache.KeepsLess : TargetCache → TargetCache → Prop
  | intro {b : CounterBuffer} {t : TargetBuffer} (contained : b.ContainedIn t)
      (sound : b.Sound) (sound' : t.Sound) : KeepsLess (counterIntegrated b) (targetOnly t)

namespace TargetCache.KeepsLess

variable {less more : TargetCache}

theorem update (keeps : KeepsLess less more) (br : Branch) :
    KeepsLess (less.update br) (more.update br) := by
  obtain ⟨contained, sound, sound'⟩ := keeps
  exact ⟨contained.update sound sound' br, sound.update br, sound'.update br⟩

theorem lookup (keeps : KeepsLess less more) {pc target : Addr}
    (held : less.lookup pc = some target) : more.lookup pc = some target := by
  obtain ⟨contained, -, -⟩ := keeps
  obtain ⟨e, found, rfl⟩ := Option.map_eq_some_iff.mp held
  exact contained.lookup found

end TargetCache.KeepsLess

/-! ## Predictions -/

/-- A prediction for the branch at `pc` that differs from another one at most by
falling back on the following instruction. -/
structure Prediction.FallsShort (pc : Addr) (p q : Prediction) : Prop where
  taken_eq : p.taken = q.taken
  address_eq : p.address = q.address ∨ p.address = pc.next

theorem Prediction.FallsShort.refl (pc : Addr) (p : Prediction) : FallsShort pc p p :=
  ⟨rfl, Or.inl rfl⟩

/-- A branch is only predicted taken by a gated predictor that has its target. -/
theorem DirectionPredictor.predictTarget_of_predict {d : DirectionPredictor}
    (gated : d.buffer?.isSome = true) {pc : Addr} (taken : d.predict pc = true) :
    ∃ target, d.predictTarget pc = some target := by
  cases d with
  | gatedGShare p => exact Option.isSome_iff_exists.mp (Bool.and_eq_true_iff.mp taken).2
  | bimodal p => cases gated
  | gshare p => cases gated
  | twoLevel p => cases gated
  | perceptron p => cases gated

namespace PredictionUnit

/-- Two units with one direction predictor, and one cache contained in the
other. -/
structure KeepsLess (u v : PredictionUnit) : Prop where
  direction_eq : u.direction = v.direction
  targets : u.targets.KeepsLess v.targets

namespace KeepsLess

variable {u v : PredictionUnit}

theorem update (keeps : u.KeepsLess v) (br : Branch) : (u.update br).KeepsLess (v.update br) :=
  ⟨congrArg (Option.map _) keeps.direction_eq, keeps.targets.update br⟩

theorem after (keeps : u.KeepsLess v) (trace : List Branch) :
    (u.after trace).KeepsLess (v.after trace) := by
  induction trace generalizing u v with
  | nil => exact keeps
  | cons br trace ih => exact ih (keeps.update br)

/-- The same direction, and the same target or none. -/
theorem predict_fallsShort (keeps : u.KeepsLess v) {d : DirectionPredictor}
    (present : u.direction = some d) (pc : Addr) :
    Prediction.FallsShort pc (u.predict pc) (v.predict pc) := by
  have present' : v.direction = some d := keeps.direction_eq.symm.trans present
  simp only [predict, present, present']
  by_cases taken : d.predict pc = true
  · rw [if_pos taken, if_pos taken]
    refine ⟨rfl, ?_⟩
    change u.targetOf d pc = v.targetOf d pc ∨ u.targetOf d pc = pc.next
    unfold targetOf
    cases d.predictTarget pc with
    | some target => exact Or.inl rfl
    | none =>
      -- without a private target the caches are asked, and one may have lost it
      cases held : u.targets.lookup pc with
      | some target =>
        rw [keeps.targets.lookup held]
        exact Or.inl rfl
      | none => exact Or.inr rfl
  · rw [if_neg taken, if_neg taken]
    exact .refl pc _

/-- A private buffer settles the target before either cache is asked. -/
theorem predict_eq_of_gated (keeps : u.KeepsLess v) {d : DirectionPredictor}
    (present : u.direction = some d) (gated : d.buffer?.isSome = true) (pc : Addr) :
    u.predict pc = v.predict pc := by
  have present' : v.direction = some d := keeps.direction_eq.symm.trans present
  simp only [predict, present, present']
  by_cases taken : d.predict pc = true
  · obtain ⟨target, stored⟩ := DirectionPredictor.predictTarget_of_predict gated taken
    rw [if_pos taken, if_pos taken]
    simp only [targetOf, stored, Option.some_or]
  · rw [if_neg taken, if_neg taken]

end KeepsLess

end PredictionUnit

/-! ## Counts -/

/-- Counts of one trace that differ at most by more missed targets. -/
structure Stats.NoBetter (s t : Stats) : Prop where
  branches_eq : s.branches = t.branches
  takenBranches_eq : s.takenBranches = t.takenBranches
  directionMispredictions_eq : s.directionMispredictions = t.directionMispredictions
  targetMispredictions_le : t.targetMispredictions ≤ s.targetMispredictions

namespace Stats

theorem NoBetter.refl (s : Stats) : s.NoBetter s :=
  ⟨rfl, rfl, rfl, Nat.le_refl _⟩

theorem NoBetter.merge {s t s' t' : Stats} (first : s.NoBetter t) (second : s'.NoBetter t') :
    (s.merge s').NoBetter (t.merge t') where
  branches_eq := by
    simp only [Stats.merge, first.branches_eq, second.branches_eq]
  takenBranches_eq := by
    simp only [Stats.merge, first.takenBranches_eq, second.takenBranches_eq]
  directionMispredictions_eq := by
    simp only [Stats.merge, first.directionMispredictions_eq,
      second.directionMispredictions_eq]
  targetMispredictions_le :=
    Nat.add_le_add first.targetMispredictions_le second.targetMispredictions_le

/-- Where the following instruction is not the target, a prediction that falls
short misses the target whenever the other one does. -/
theorem wrongTarget_of_fallsShort {p q : Prediction} {br : Branch}
    (short : Prediction.FallsShort br.pc p q)
    (leaves : br.taken = true → br.target ≠ br.pc.next) (wrong : wrongTarget q br = true) :
    wrongTarget p br = true := by
  simp only [wrongTarget, Bool.and_eq_true, beq_iff_eq, bne_iff_ne] at wrong ⊢
  obtain ⟨⟨direction, taken⟩, missed⟩ := wrong
  refine ⟨⟨short.taken_eq.trans direction, taken⟩, ?_⟩
  rcases short.address_eq with same | lost
  · rw [same]
    exact missed
  · rw [lost]
    exact (leaves taken).symm

theorem noBetter_record {p q : Prediction} {br : Branch}
    (short : Prediction.FallsShort br.pc p q)
    (leaves : br.taken = true → br.target ≠ br.pc.next) (s : Stats) :
    (s.record p br).NoBetter (s.record q br) where
  branches_eq := rfl
  takenBranches_eq := rfl
  directionMispredictions_eq := by
    simp only [record, wrongDirection, short.taken_eq]
  targetMispredictions_le := by
    refine Nat.add_le_add_left ?_ _
    cases wrong : wrongTarget q br with
    | false => exact Nat.zero_le _
    | true =>
      have missed := wrongTarget_of_fallsShort short leaves wrong
      exact Nat.le_of_eq (by rw [missed])

end Stats

namespace PredictionUnit

/-- Over a trace without branches to the following instruction, the unit that
keeps less differs by missed targets only. -/
theorem KeepsLess.tally_noBetter {u v : PredictionUnit} (keeps : u.KeepsLess v)
    (present : u.direction.isSome = true) {trace : List Branch}
    (leaves : ∀ br ∈ trace, br.taken = true → br.target ≠ br.pc.next) :
    (u.tally trace).NoBetter (v.tally trace) := by
  induction trace generalizing u v with
  | nil => exact .refl _
  | cons br trace ih =>
    obtain ⟨d, found⟩ := Option.isSome_iff_exists.mp present
    -- the counts of this branch, and then those of a run that starts one step on
    have short := keeps.predict_fallsShort found br.pc
    have now := Stats.noBetter_record short (leaves br List.mem_cons_self) .empty
    have still : (u.update br).direction.isSome = true :=
      Option.isSome_map.trans present
    exact now.merge (ih (keeps.update br) still fun later member =>
      leaves later (List.mem_cons_of_mem br member))

/-! ## The units of a configuration -/

theorem keepsLess_fresh {c : Config} (valid : c.Valid) :
    (fresh { c with targetCache := .counterIntegrated }).KeepsLess
      (fresh { c with targetCache := .targetOnly }) :=
  ⟨rfl, .intro (CounterBuffer.containedIn_fresh c.btbEntries)
    (CounterBuffer.sound_fresh (c := c) valid) (TargetBuffer.sound_fresh (c := c) valid)⟩

theorem isSome_direction_fresh {c : Config} (kind : c.kind ≠ .btb) :
    (fresh c).direction.isSome = true := by
  change (DirectionPredictor.fresh c).isSome = true
  unfold DirectionPredictor.fresh
  split
  case h_1 same => exact absurd same kind
  all_goals rfl

/-- A gated unit has its private buffer throughout a run. -/
theorem gated_after_fresh {c : Config} (kind : c.kind = .gshareBtb) (trace : List Branch)
    {d : DirectionPredictor} (present : ((fresh c).after trace).direction = some d) :
    d.buffer?.isSome = true := by
  rw [direction_after] at present
  obtain ⟨earlier, built, rfl⟩ := Option.map_eq_some_iff.mp present
  change DirectionPredictor.fresh c = some earlier at built
  rw [DirectionPredictor.fresh, kind] at built
  cases built
  rw [DirectionPredictor.buffer?_foldl]
  rfl

/-- **A cache with counters falls short of one without.** Let two fresh units
differ in the kind of their target cache, and have a direction predictor. After
every trace and for every branch they predict the same direction, and the same
address unless the unit with counters falls back on the following instruction;
with a private target buffer they predict the same. Their simulators report the
same counts, except that the cache with counters costs as many missed targets
or more, for every trace whose taken branches leave the following instruction. -/
theorem counterIntegrated_fallsShort_of_targetOnly {c : Config}
    (accepted : c.validate = .ok ()) (kind : c.kind ≠ .btb) :
    ∃ s t, Simulator.ofConfig { c with targetCache := .counterIntegrated } = .ok s ∧
      Simulator.ofConfig { c with targetCache := .targetOnly } = .ok t ∧
      (∀ (trace : List Branch) (pc : Addr),
        Prediction.FallsShort pc ((s.unit.after trace).predict pc)
          ((t.unit.after trace).predict pc) ∧
        (c.kind = .gshareBtb →
          (s.unit.after trace).predict pc = (t.unit.after trace).predict pc)) ∧
      ∀ trace : List Branch, (∀ br ∈ trace, br.taken = true → br.target ≠ br.pc.next) →
        (s.run trace).1.NoBetter (t.run trace).1 := by
  have valid := (Config.validate_eq_ok_iff c).mp accepted
  have keeps := keepsLess_fresh valid
  have present := isSome_direction_fresh
    (c := { c with targetCache := .counterIntegrated }) kind
  refine ⟨.fresh { c with targetCache := .counterIntegrated },
    .fresh { c with targetCache := .targetOnly }, ?_, ?_, fun trace pc => ?_,
    fun trace leaves => ?_⟩
  · rw [Simulator.ofConfig_eq, Config.validate_with_targetCache, accepted]
    rfl
  · rw [Simulator.ofConfig_eq, Config.validate_with_targetCache, accepted]
    rfl
  · obtain ⟨d, found⟩ := Option.isSome_iff_exists.mp present
    have still : ((fresh { c with targetCache := .counterIntegrated }).after trace).direction =
        some (trace.foldl .update d) := by
      rw [direction_after, found]
      rfl
    refine ⟨(keeps.after trace).predict_fallsShort still pc, fun gated => ?_⟩
    exact (keeps.after trace).predict_eq_of_gated still
      (gated_after_fresh (c := { c with targetCache := .counterIntegrated }) gated trace still) pc
  · rw [Simulator.run_eq, Simulator.run_eq]
    exact keeps.tally_noBetter present leaves

/-- A global predictor with a single slot for targets. -/
def lossy : Config :=
  { kind := .gshare, entries := 1, historyLength := 4, phtIndexBits := 4, btbEntries := 1 }

/-- A branch that falls through twice and is then taken again. -/
def weakened : List Branch :=
  [⟨.ofNat 0x1000, .ofNat 0x40, true⟩, ⟨.ofNat 0x1000, .ofNat 0x40, false⟩,
    ⟨.ofNat 0x1000, .ofNat 0x40, false⟩, ⟨.ofNat 0x1000, .ofNat 0x40, true⟩]

/-- Falling through twice costs the cache with counters the target. -/
theorem counterIntegrated_fallsShort_of_targetOnly_weakened :
    lossy.validate = .ok () ∧ lossy.kind ≠ .btb ∧
      (∀ br ∈ weakened, br.taken = true → br.target ≠ br.pc.next) ∧
      ∃ s t, Simulator.ofConfig { lossy with targetCache := .counterIntegrated } = .ok s ∧
        Simulator.ofConfig { lossy with targetCache := .targetOnly } = .ok t ∧
        (s.run weakened).1.NoBetter (t.run weakened).1 ∧
        (s.run weakened).1.targetMispredictions = 2 ∧
        (t.run weakened).1.targetMispredictions = 1 := by
  have leaves : ∀ br ∈ weakened, br.taken = true → br.target ≠ br.pc.next := by decide
  obtain ⟨s, t, built, built', -, counts⟩ :=
    counterIntegrated_fallsShort_of_targetOnly (c := lossy) rfl (by decide)
  refine ⟨rfl, by decide, leaves, s, t, built, built', counts weakened leaves, ?_, ?_⟩
  · cases built
    decide
  · cases built'
    decide

end PredictionUnit

end BranchPrediction
