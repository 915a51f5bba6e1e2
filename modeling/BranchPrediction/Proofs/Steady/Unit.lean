import BranchPrediction.Proofs.Steady.Targets
import BranchPrediction.Proofs.Targets.Served
/-!
# Units learn a repeated branch

A unit whose directions come from saturating counters learns a branch that
resolves in the same way often enough, from every state that it can reach. It
has to wait until the history is full of that outcome and then until the counter
has crossed half of its range. The target takes one taken branch, so it is known
by then, wherever the unit keeps it.

A unit without a direction predictor learns from the counters of its target
cache, if it has some.

## Main definitions

* `DirectionPredictor.decidesByCounters`, `PredictionUnit.decidesByCounters`:
  directions come from saturating counters

## Main results

* `DirectionPredictor.Sound.predict_replicate`: the direction is learnt
* `PredictionUnit.storedTarget_update_self`: the target is learnt
* `PredictionUnit.predict_after_repetition`: both, for the units of a configuration
-/

namespace BranchPrediction

/-! ## Directions -/

/-- A history has an outcome at least, and so has half of the range of a
counter. -/
theorem Config.Valid.two_le_of_enough {c : Config} (valid : c.Valid) {n : Nat}
    (enough : c.historyLength + 2 ^ (c.counterBits - 1) ≤ n) : 2 ≤ n := by
  have := valid.historyLength_pos
  have := Nat.two_pow_pos (c.counterBits - 1)
  omega

theorem GatedGShare.gshare_foldl (p : GatedGShare) (trace : List Branch) :
    (trace.foldl update p).gshare = trace.foldl GShare.update p.gshare :=
  (List.foldl_hom GatedGShare.gshare fun _ _ => rfl).symm

theorem GatedGShare.buffer_foldl (p : GatedGShare) (trace : List Branch) :
    (trace.foldl update p).buffer = trace.foldl TargetBuffer.update p.buffer :=
  (List.foldl_hom GatedGShare.buffer fun _ _ => rfl).symm

/-- A gated predictor learns the direction from its counters, and a taken branch
finds its target in the private buffer. -/
theorem GatedGShare.Sound.predict_replicate {c : Config} (valid : c.Valid) {p : GatedGShare}
    (sound : p.Sound c) (br : Branch) {n : Nat}
    (enough : c.historyLength + 2 ^ (c.counterBits - 1) ≤ n) :
    ((List.replicate n br).foldl GatedGShare.update p).predict br.pc = br.taken := by
  have direction := (GShare.settles valid p.gshare.order br).predict_eq
    (GShare.lawful_counterUse valid p.gshare.order) valid.counterBits_pos ⟨sound.gshare, rfl⟩
    enough
  change ((List.replicate n br).foldl GShare.update p.gshare).predict br.pc = br.taken at direction
  rw [GatedGShare.predict, gshare_foldl, buffer_foldl, direction]
  cases taken : br.taken with
  | false => rfl
  | true =>
    -- the last repetition stored the target
    have twice := valid.two_le_of_enough enough
    rw [foldl_replicate_of_pos _ _ _ (by omega), Bool.true_and]
    exact Option.isSome_of_eq_some
      (TargetBuffer.lookup_update_self (sound.buffer.foldl _) taken)

namespace DirectionPredictor

/-- Whether a direction is what a saturating counter says. -/
def decidesByCounters : DirectionPredictor → Bool
  | perceptron _ => false
  | _ => true

theorem decidesByCounters_update (d : DirectionPredictor) (br : Branch) :
    (d.update br).decidesByCounters = d.decidesByCounters := by
  cases d <;> rfl

/-- Counters learn the direction of a branch that is repeated until the history
is full of its outcome, and then for half of their range. -/
theorem Sound.predict_replicate {c : Config} (valid : c.Valid) {d : DirectionPredictor}
    (sound : d.Sound c) (counters : d.decidesByCounters = true) (br : Branch) {n : Nat}
    (enough : c.historyLength + 2 ^ (c.counterBits - 1) ≤ n) :
    ((List.replicate n br).foldl DirectionPredictor.update d).predict br.pc = br.taken := by
  have wide := valid.counterBits_pos
  cases d with
  | bimodal p =>
    rw [foldl_bimodal]
    exact (Bimodal.settles c br).predict_eq (Bimodal.lawful_counterUse c) wide sound (by omega)
  | gshare p =>
    rw [foldl_gshare]
    exact (GShare.settles valid p.order br).predict_eq (GShare.lawful_counterUse valid p.order)
      wide ⟨sound, rfl⟩ enough
  | gatedGShare p =>
    rw [foldl_gatedGShare]
    exact GatedGShare.Sound.predict_replicate valid sound br enough
  | twoLevel p =>
    rw [foldl_twoLevel]
    exact (TwoLevel.settles valid br).predict_eq (TwoLevel.lawful_counterUse valid) wide sound
      enough
  | perceptron p => cases counters

/-- A taken branch finds its target in the private buffer, if there is one. -/
theorem Sound.predictTarget_update_self {c : Config} {d : DirectionPredictor}
    (sound : d.Sound c) {br : Branch} (taken : br.taken = true) :
    (d.update br).predictTarget br.pc = none ∨
      (d.update br).predictTarget br.pc = some br.target := by
  cases d with
  | gatedGShare p =>
    exact Or.inr (TargetBuffer.lookup_update_self (GatedGShare.Sound.buffer sound) taken)
  | bimodal p => exact Or.inl rfl
  | gshare p => exact Or.inl rfl
  | twoLevel p => exact Or.inl rfl
  | perceptron p => exact Or.inl rfl

end DirectionPredictor

/-! ## The unit -/

namespace PredictionUnit

/-- Whether directions are what saturating counters say. -/
def decidesByCounters (u : PredictionUnit) : Bool :=
  match u.direction with
  | some d => d.decidesByCounters
  | none => u.targets.kind == .counterIntegrated

theorem decidesByCounters_update (u : PredictionUnit) (br : Branch) :
    (u.update br).decidesByCounters = u.decidesByCounters := by
  unfold decidesByCounters update
  cases u.direction with
  | none => cases u.targets <;> rfl
  | some d => exact d.decidesByCounters_update br

theorem decidesByCounters_after (u : PredictionUnit) (trace : List Branch) :
    (u.after trace).decidesByCounters = u.decidesByCounters := by
  induction trace generalizing u with
  | nil => rfl
  | cons br trace ih => rw [after_cons, ih, decidesByCounters_update]

/-- Only perceptrons and caches without counters decide by other means. -/
theorem decidesByCounters_fresh {c : Config} (kind : c.kind ≠ .perceptron)
    (cache : c.kind = .btb → c.targetCache = .counterIntegrated) :
    (fresh c).decidesByCounters = true := by
  simp only [decidesByCounters, fresh, DirectionPredictor.fresh]
  cases same : c.kind
  case btb => simp [TargetCache.fresh, cache same, TargetCache.kind]
  case perceptron => exact absurd same kind
  all_goals rfl

/-- A taken branch finds its target in the unit. -/
theorem storedTarget_update_self {c : Config} {u : PredictionUnit} (sound : u.Sound c)
    {br : Branch} (taken : br.taken = true) :
    (u.update br).storedTarget br.pc = some br.target := by
  -- a private buffer takes precedence over the cache, but it knows the target too
  have cached : (u.update br).targets.lookup br.pc = some br.target :=
    TargetCache.lookup_update_self sound.targets taken
  rw [storedTarget, cached]
  cases present : u.direction with
  | none => simp [update, present]
  | some d =>
    rcases (sound.direction d present).predictTarget_update_self taken with absent | found
    · simp [update, present, absent]
    · simp [update, present, found]

/-- Counters learn a branch that is repeated until the history is full of its
outcome, and then for half of their range. -/
theorem Sound.predict_replicate {c : Config} (valid : c.Valid) {u : PredictionUnit}
    (sound : u.Sound c) (counters : u.decidesByCounters = true) (br : Branch) {n : Nat}
    (enough : c.historyLength + 2 ^ (c.counterBits - 1) ≤ n) :
    (u.after (List.replicate n br)).predict br.pc =
      if br.taken then .jump br.target else .fallThrough br.pc := by
  have twice := valid.two_le_of_enough enough
  unfold decidesByCounters at counters
  cases present : u.direction with
  | none =>
    rw [present] at counters
    have kept := sound.targets
    rw [predict_after_of_alone present]
    cases cache : u.targets with
    | targetOnly t =>
      rw [cache] at counters
      cases counters
    | counterIntegrated b =>
      rw [cache] at kept
      rw [TargetCache.foldl_counterIntegrated]
      exact CounterBuffer.Sound.predict_replicate kept br twice
  | some d =>
    rw [present] at counters
    rw [predict_eq_of_direction (direction_after_of_some present _),
      (sound.direction d present).predict_replicate valid counters br enough]
    cases taken : br.taken with
    | false => rfl
    | true =>
      -- the last repetition stored the target
      have last : u.after (List.replicate n br) =
          (u.after (List.replicate (n - 1) br)).update br :=
        foldl_replicate_of_pos _ _ _ (by omega)
      rw [last, storedTarget_update_self (sound.after valid _) taken]
      rfl

/-- **Units learn a repeated branch.** Directions that come from saturating
counters are learnt from every reachable state, within the history length and
half of the range of a counter, and the target of a taken branch with them. -/
theorem predict_after_repetition {c : Config} (accepted : c.validate = .ok ())
    (kind : c.kind ≠ .perceptron)
    (cache : c.kind = .btb → c.targetCache = .counterIntegrated) :
    ∃ u, PredictionUnit.ofConfig c = .ok u ∧ ∀ (cycles : List Cycle) (br : Branch) (n : Nat),
      c.historyLength + 2 ^ (c.counterBits - 1) ≤ n →
        ((u.afterCycles cycles).after (List.replicate n br)).predict br.pc =
          if br.taken then .jump br.target else .fallThrough br.pc := by
  have valid := (Config.validate_eq_ok_iff c).mp accepted
  refine ⟨fresh c, ?_, fun cycles br n enough => ?_⟩
  · rw [ofConfig_eq, accepted]
    rfl
  · rw [afterCycles_eq]
    have sound := (sound_fresh valid).after valid (cycles.filterMap (·.resolved))
    refine sound.predict_replicate valid ?_ br enough
    rw [decidesByCounters_after]
    exact decidesByCounters_fresh kind cache

/-- A global history of two outcomes over counters of one bit. -/
def shortMemory : Config :=
  { kind := .gshare, entries := 1, historyLength := 2, counterBits := 1, phtIndexBits := 2,
    btbEntries := 1, targetCache := .counterIntegrated }

/-- The same branch, taken or not. -/
def backEdge (taken : Bool) : Branch :=
  ⟨.ofNat 0x1000, .ofNat 0x40, taken⟩

/-- A run in which the branch falls through after it was taken twice. -/
def discouraged : List Cycle :=
  [true, true, false].map fun taken => ⟨none, some (backEdge taken)⟩

/-- After such a run the shortest repetition is needed in full. -/
theorem predict_after_repetition_discouraged :
    shortMemory.validate = .ok () ∧ shortMemory.kind ≠ .perceptron ∧
      (shortMemory.kind = .btb → shortMemory.targetCache = .counterIntegrated) ∧
      shortMemory.historyLength + 2 ^ (shortMemory.counterBits - 1) ≤ 3 ∧
      ∃ u, PredictionUnit.ofConfig shortMemory = .ok u ∧
        ((u.afterCycles discouraged).after (List.replicate 2 (backEdge true))).predict
          (.ofNat 0x1000) = .fallThrough (.ofNat 0x1000) ∧
        ((u.afterCycles discouraged).after (List.replicate 3 (backEdge true))).predict
          (.ofNat 0x1000) = .jump (.ofNat 0x40) := by
  have enough : shortMemory.historyLength + 2 ^ (shortMemory.counterBits - 1) ≤ 3 := by decide
  obtain ⟨u, built, learns⟩ :=
    predict_after_repetition (c := shortMemory) rfl (by decide) (by decide)
  refine ⟨rfl, by decide, by decide, enough, u, built, ?_, ?_⟩
  · cases built
    decide
  · exact learns discouraged (backEdge true) 3 enough

end PredictionUnit

end BranchPrediction
