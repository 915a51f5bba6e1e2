import BranchPrediction.Proofs.Range.Checked
import BranchPrediction.Proofs.Run
/-!
# Every reachable unit is sound

A unit is sound if its direction predictor and its target cache are. The fresh
unit of a valid configuration is sound, a resolved branch keeps it so, and a
query changes nothing, so every unit that a run of clock cycles can reach is
sound. No sum of weights then leaves the 32-bit range.

A sound unit also goes on where operations may fail: each prediction, lookup and
update finds all its cells and gives what the total operation gives. So no run of
clock cycles, however long, ever stops.

## Main definitions

* `DirectionPredictor.Sound`, `TargetCache.Sound`, `PredictionUnit.Sound`
* `PredictionUnit.SumsFit`: the partial sums of every row
* `PredictionUnit.tick?`, `PredictionUnit.afterCycles?`: clock cycles that may fail
* `PredictionUnit.GoesOn`: no operation fails

## Main results

* `PredictionUnit.Sound.after`: a run of resolved branches keeps a unit sound
* `PredictionUnit.Sound.goesOn`: a sound unit goes on
* `PredictionUnit.sound_afterCycles`: every reachable unit is sound and goes on
-/

namespace BranchPrediction

/-! ## Direction predictors -/

/-- The account of the variant holds. -/
def DirectionPredictor.Sound (c : Config) : DirectionPredictor → Prop
  | bimodal p => p.Sound c
  | gshare p => p.Sound c
  | gatedGShare p => p.Sound c
  | twoLevel p => p.Sound c
  | perceptron p => p.Sound c

theorem DirectionPredictor.sound_fresh {c : Config} (valid : c.Valid) {d : DirectionPredictor}
    (built : DirectionPredictor.fresh c = some d) : d.Sound c :=
  of_fresh (P := Sound c) (Bimodal.sound_fresh valid) (GShare.sound_fresh valid)
    (GatedGShare.sound_fresh valid) (TwoLevel.sound_fresh valid) (Perceptron.sound_fresh valid)
    built

theorem DirectionPredictor.Sound.update {c : Config} (valid : c.Valid) {d : DirectionPredictor}
    (sound : d.Sound c) (br : Branch) : (d.update br).Sound c := by
  cases d with
  | bimodal p => exact Bimodal.Sound.update sound br
  | gshare p => exact GShare.Sound.update valid sound br
  | gatedGShare p => exact GatedGShare.Sound.update valid sound br
  | twoLevel p => exact TwoLevel.Sound.update valid sound br
  | perceptron p => exact Perceptron.Sound.update valid sound br

namespace DirectionPredictor

def predict? (d : DirectionPredictor) (pc : Addr) : Option Bool :=
  match d with
  | bimodal p => p.predict? pc
  | gshare p => p.predict? pc
  | gatedGShare p => p.predict? pc
  | twoLevel p => p.predict? pc
  | perceptron p => p.predict? pc

def predictTarget? (d : DirectionPredictor) (pc : Addr) : Option (Option Addr) :=
  match d with
  | gatedGShare p => p.predictTarget? pc
  | _ => some none

def update? (d : DirectionPredictor) (br : Branch) : Option DirectionPredictor :=
  match d with
  | bimodal p => bimodal <$> p.update? br
  | gshare p => gshare <$> p.update? br
  | gatedGShare p => gatedGShare <$> p.update? br
  | twoLevel p => twoLevel <$> p.update? br
  | perceptron p => perceptron <$> p.update? br

variable {c : Config} {d : DirectionPredictor}

theorem Sound.predict?_eq (valid : c.Valid) (sound : d.Sound c) (pc : Addr) :
    d.predict? pc = some (d.predict pc) := by
  cases d with
  | bimodal p => exact Bimodal.Sound.predict?_eq sound pc
  | gshare p => exact GShare.Sound.predict?_eq valid sound pc
  | gatedGShare p => exact GatedGShare.Sound.predict?_eq valid sound pc
  | twoLevel p => exact TwoLevel.Sound.predict?_eq sound pc
  | perceptron p => exact Perceptron.Sound.predict?_eq valid sound pc

theorem Sound.predictTarget?_eq (sound : d.Sound c) (pc : Addr) :
    d.predictTarget? pc = some (d.predictTarget pc) := by
  cases d
  case gatedGShare p => exact GatedGShare.Sound.predictTarget?_eq sound pc
  all_goals rfl

theorem Sound.update?_eq (valid : c.Valid) (sound : d.Sound c) (br : Branch) :
    d.update? br = some (d.update br) := by
  cases d with
  | bimodal p => exact congrArg (bimodal <$> ·) (Bimodal.Sound.update?_eq valid sound br)
  | gshare p => exact congrArg (gshare <$> ·) (GShare.Sound.update?_eq valid sound br)
  | gatedGShare p =>
    exact congrArg (gatedGShare <$> ·) (GatedGShare.Sound.update?_eq valid sound br)
  | twoLevel p => exact congrArg (twoLevel <$> ·) (TwoLevel.Sound.update?_eq valid sound br)
  | perceptron p => exact congrArg (perceptron <$> ·) (Perceptron.Sound.update?_eq valid sound br)

end DirectionPredictor

/-! ## Target caches -/

/-- The account of the buffer holds. -/
def TargetCache.Sound : TargetCache → Prop
  | counterIntegrated b => b.Sound
  | targetOnly b => b.Sound

theorem TargetCache.sound_fresh {c : Config} (valid : c.Valid) :
    (TargetCache.fresh c).Sound := by
  unfold TargetCache.fresh
  split
  · exact CounterBuffer.sound_fresh valid
  · exact TargetBuffer.sound_fresh valid

theorem TargetCache.Sound.update {t : TargetCache} (sound : t.Sound) (br : Branch) :
    (t.update br).Sound := by
  cases t with
  | counterIntegrated b => exact CounterBuffer.Sound.update sound br
  | targetOnly b => exact TargetBuffer.Sound.update sound br

namespace TargetCache

def lookup? (t : TargetCache) (pc : Addr) : Option (Option Addr) :=
  match t with
  | counterIntegrated b => (b.lookup? pc).map (·.map (·.target))
  | targetOnly b => b.lookup? pc

def predict? (t : TargetCache) (pc : Addr) : Option Prediction :=
  match t with
  | counterIntegrated b => b.predict? pc
  | targetOnly b => b.predict? pc

def update? (t : TargetCache) (br : Branch) : Option TargetCache :=
  match t with
  | counterIntegrated b => counterIntegrated <$> b.update? br
  | targetOnly b => targetOnly <$> b.update? br

variable {t : TargetCache}

theorem Sound.lookup?_eq (sound : t.Sound) (pc : Addr) : t.lookup? pc = some (t.lookup pc) := by
  cases t with
  | counterIntegrated b =>
    exact congrArg (Option.map _) (CounterBuffer.Sound.lookup?_eq sound pc)
  | targetOnly b => exact TargetBuffer.Sound.lookup?_eq sound pc

theorem Sound.predict?_eq (sound : t.Sound) (pc : Addr) :
    t.predict? pc = some (t.predict pc) := by
  cases t with
  | counterIntegrated b => exact CounterBuffer.Sound.predict?_eq sound pc
  | targetOnly b => exact TargetBuffer.Sound.predict?_eq sound pc

theorem Sound.update?_eq (sound : t.Sound) (br : Branch) : t.update? br = some (t.update br) := by
  cases t with
  | counterIntegrated b =>
    exact congrArg (counterIntegrated <$> ·) (CounterBuffer.Sound.update?_eq sound br)
  | targetOnly b => exact congrArg (targetOnly <$> ·) (TargetBuffer.Sound.update?_eq sound br)

end TargetCache

/-! ## The unit -/

namespace PredictionUnit

/-- Both halves of the unit are sound. -/
structure Sound (c : Config) (u : PredictionUnit) : Prop where
  /-- The direction predictor, if there is one, stays within its tables, and
  their values are in range. -/
  direction : ∀ d, u.direction = some d → d.Sound c
  /-- So does the target cache. -/
  targets : u.targets.Sound

/-- Every partial sum of every row fits in a signed 32-bit number, and so does
its magnitude, whatever history the row is read under. -/
def SumsFit (u : PredictionUnit) : Prop :=
  ∀ p, u.direction = some (.perceptron p) → ∀ i h k, k ≤ (p.rowAt i).weights.size →
    ((p.rowAt i).partialSum h k).natAbs < 2 ^ 31

theorem sound_fresh {c : Config} (valid : c.Valid) : (fresh c).Sound c :=
  ⟨fun _ => DirectionPredictor.sound_fresh valid, TargetCache.sound_fresh valid⟩

theorem Sound.update {c : Config} (valid : c.Valid) {u : PredictionUnit} (sound : u.Sound c)
    (br : Branch) : (u.update br).Sound c := by
  refine ⟨fun d updated => ?_, sound.targets.update br⟩
  obtain ⟨earlier, present, rfl⟩ := Option.map_eq_some_iff.mp updated
  exact (sound.direction earlier present).update valid br

/-- A run of resolved branches keeps a unit sound. -/
theorem Sound.after {c : Config} (valid : c.Valid) {u : PredictionUnit} (sound : u.Sound c)
    (trace : List Branch) : (u.after trace).Sound c :=
  List.foldlRecOn trace PredictionUnit.update sound fun _ sound br _ => sound.update valid br

theorem Sound.sumsFit {c : Config} (valid : c.Valid) {u : PredictionUnit} (sound : u.Sound c) :
    u.SumsFit := by
  intro p present i h k terms
  exact Perceptron.Sound.natAbs_partialSum_lt valid (sound.direction _ present) i h terms

/-! ## Clock cycles that may fail -/

/-- The cache is only asked for a target if the direction predictor has none. -/
def targetOf? (u : PredictionUnit) (d : DirectionPredictor) (pc : Addr) : Option Addr := do
  match ← d.predictTarget? pc with
  | some target => return target
  | none => return (← u.targets.lookup? pc).getD pc.next

def predict? (u : PredictionUnit) (pc : Addr) : Option Prediction :=
  match u.direction with
  | none => u.targets.predict? pc
  | some d => do
    if ← d.predict? pc then return .jump (← u.targetOf? d pc) else return .fallThrough pc

def update? (u : PredictionUnit) (br : Branch) : Option PredictionUnit := do
  return { u with
    direction := ← u.direction.mapM (·.update? br)
    targets := ← u.targets.update? br }

def tick? (u : PredictionUnit) (query : Option Addr) (resolved : Option Branch) :
    Option (Option Prediction × PredictionUnit) := do
  let prediction ← query.mapM u.predict?
  match resolved with
  | some br => return (prediction, ← u.update? br)
  | none => return (prediction, u)

/-- The unit after some clock cycles, each of which may fail. -/
def afterCycles? (u : PredictionUnit) (cycles : List Cycle) : Option PredictionUnit :=
  cycles.foldlM (fun u t => do return (← u.tick? t.query t.resolved).2) u

/-- No operation on a unit or one of its halves fails, and each gives what it gives where
nothing can fail. -/
structure GoesOn (u : PredictionUnit) : Prop where
  direction : ∀ d, u.direction = some d → ∀ pc,
    d.predict? pc = some (d.predict pc) ∧ d.predictTarget? pc = some (d.predictTarget pc)
  targets : ∀ pc, u.targets.lookup? pc = some (u.targets.lookup pc) ∧
    u.targets.predict? pc = some (u.targets.predict pc)
  predict : ∀ pc, u.predict? pc = some (u.predict pc)
  update : ∀ br, u.update? br = some (u.update br)
  tick : ∀ query resolved, u.tick? query resolved = some (u.tick query resolved)

section Sound

variable {c : Config} {u : PredictionUnit}

theorem Sound.targetOf?_eq (sound : u.Sound c) {d : DirectionPredictor}
    (present : u.direction = some d) (pc : Addr) :
    u.targetOf? d pc = some (u.targetOf d pc) := by
  rw [targetOf?, (sound.direction d present).predictTarget?_eq, sound.targets.lookup?_eq, targetOf]
  cases d.predictTarget pc <;> rfl

theorem Sound.predict?_eq (valid : c.Valid) (sound : u.Sound c) (pc : Addr) :
    u.predict? pc = some (u.predict pc) := by
  cases present : u.direction with
  | none =>
    rw [predict?, predict, present]
    exact sound.targets.predict?_eq pc
  | some d =>
    simp only [predict?, predict, present]
    rw [(sound.direction d present).predict?_eq valid, sound.targetOf?_eq present]
    cases d.predict pc <;> rfl

theorem Sound.update?_eq (valid : c.Valid) (sound : u.Sound c) (br : Branch) :
    u.update? br = some (u.update br) := by
  have direction : u.direction.mapM (·.update? br) = some (u.direction.map (·.update br)) := by
    cases present : u.direction with
    | none => rfl
    | some d =>
      change some <$> d.update? br = _
      rw [(sound.direction d present).update?_eq valid]
      rfl
  rw [update?, direction, sound.targets.update?_eq]
  rfl

theorem Sound.tick?_eq (valid : c.Valid) (sound : u.Sound c) (query : Option Addr)
    (resolved : Option Branch) : u.tick? query resolved = some (u.tick query resolved) := by
  have prediction : query.mapM u.predict? = some (query.map u.predict) := by
    cases query with
    | none => rfl
    | some pc =>
      change some <$> u.predict? pc = _
      rw [sound.predict?_eq valid]
      rfl
  rw [tick?, prediction]
  cases resolved with
  | none => rfl
  | some br =>
    change (do return (query.map u.predict, ← u.update? br)) = _
    rw [sound.update?_eq valid]
    rfl

/-- A sound unit goes on. -/
theorem Sound.goesOn (valid : c.Valid) (sound : u.Sound c) : u.GoesOn where
  direction d present pc :=
    have sound := sound.direction d present
    ⟨sound.predict?_eq valid pc, sound.predictTarget?_eq pc⟩
  targets pc := ⟨sound.targets.lookup?_eq pc, sound.targets.predict?_eq pc⟩
  predict := sound.predict?_eq valid
  update := sound.update?_eq valid
  tick := sound.tick?_eq valid

theorem Sound.tick (valid : c.Valid) (sound : u.Sound c) (query : Option Addr)
    (resolved : Option Branch) : (u.tick query resolved).2.Sound c := by
  cases resolved with
  | none => exact sound
  | some br => exact sound.update valid br

/-- No cycle of a run fails, since each of them starts from a sound unit. -/
theorem Sound.afterCycles?_eq (valid : c.Valid) (sound : u.Sound c) (cycles : List Cycle) :
    u.afterCycles? cycles = some (u.afterCycles cycles) := by
  induction cycles generalizing u with
  | nil => rfl
  | cons t cycles ih =>
    have first : (do return (← u.tick? t.query t.resolved).2) =
        some (u.tick t.query t.resolved).2 := by
      rw [sound.tick?_eq valid]
      rfl
    rw [afterCycles?, List.foldlM_cons, first]
    exact ih (sound.tick valid t.query t.resolved)

end Sound

/-- **Every reachable unit is sound.** A configuration that passes the checks
builds a unit. Whatever the unit is asked and told, its values stay in range, and no
sum of its weights leaves 32 bits. No access to a table and no arithmetic on the way
fails, nor would the next one. -/
theorem sound_afterCycles {c : Config} (accepted : c.validate = .ok ()) :
    ∃ u, PredictionUnit.ofConfig c = .ok u ∧ ∀ cycles : List Cycle,
      (u.afterCycles cycles).Sound c ∧ (u.afterCycles cycles).SumsFit ∧
        u.afterCycles? cycles = some (u.afterCycles cycles) ∧ (u.afterCycles cycles).GoesOn := by
  have valid := (Config.validate_eq_ok_iff c).mp accepted
  refine ⟨fresh c, ?_, fun cycles => ?_⟩
  · rw [ofConfig_eq, accepted]
    rfl
  · have sound : ((fresh c).afterCycles cycles).Sound c := by
      rw [afterCycles_eq]
      exact (sound_fresh valid).after valid _
    exact ⟨sound, sound.sumsFit valid, (sound_fresh valid).afterCycles?_eq valid cycles,
      sound.goesOn valid⟩

/-- The widest registers over the smallest tables. -/
def widest : Config :=
  { kind := .perceptron, entries := 1, historyLength := 64, weightBits := 16, counterBits := 8,
    btbEntries := 1, targetCache := .counterIntegrated }

theorem sound_afterCycles_widest :
    widest.validate = .ok () ∧
      ∃ u, PredictionUnit.ofConfig widest = .ok u ∧ ∀ cycles : List Cycle,
        (u.afterCycles cycles).Sound widest ∧ (u.afterCycles cycles).SumsFit ∧
          u.afterCycles? cycles = some (u.afterCycles cycles) ∧ (u.afterCycles cycles).GoesOn :=
  ⟨rfl, sound_afterCycles rfl⟩

end PredictionUnit

end BranchPrediction
