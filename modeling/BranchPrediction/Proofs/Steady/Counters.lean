import BranchPrediction.Proofs.Counters.Consultation
import BranchPrediction.Proofs.Counters.Mistakes
import BranchPrediction.Proofs.Steady.Histories
/-!
# Counters under one branch

When the same branch resolves the same way again and again, the history that
selects its counter fills with its outcome. After that the predictor is at rest:
the branch consults one counter and trains that counter, whether the history
takes in the outcome before or after the trained index is computed. Each further
repetition takes the counter a step closer to the outcome, and half of its range
is the longest way.

Nothing is assumed about the state in which the repetition starts.

## Main definitions

* `CounterUse.decisive`: the consulted counter
* `CounterUse.Settles`: a predictor comes to rest on a branch

## Main results

* `steps_foldl_replicate`: repetitions add up
* `CounterUse.Settles.stepsTo_update`: what repetition does to the decisive counter
* `CounterUse.Settles.predict_eq`: the prediction after enough repetitions
* `Bimodal.settles`, `GShare.settles`, `TwoLevel.settles`: when each variant rests
-/

namespace BranchPrediction

/-! ## Repetitions -/

/-- The last one of some repetitions comes last. -/
theorem foldl_replicate_of_pos {σ α : Type} (f : σ → α → σ) (s : σ) (a : α) {n : Nat}
    (once : 0 < n) :
    (List.replicate n a).foldl f s = f ((List.replicate (n - 1) a).foldl f s) a := by
  obtain ⟨k, rfl⟩ : ∃ k, n = k + 1 := ⟨n - 1, by omega⟩
  rw [List.replicate_succ', List.foldl_append]
  rfl

/-- If each repetition leaves one step fewer to go, `n` repetitions leave `n` steps
fewer. -/
theorem steps_foldl_replicate {σ α : Type} (steps : σ → Nat) {f : σ → α → σ} {a : α}
    {Inv : σ → Prop} (inv : ∀ {s}, Inv s → Inv (f s a))
    (closer : ∀ {s}, Inv s → steps (f s a) = steps s - 1) {s : σ} (start : Inv s) (n : Nat) :
    steps ((List.replicate n a).foldl f s) = steps s - n := by
  induction n generalizing s with
  | zero => rfl
  | succ n ih =>
    rw [List.replicate_succ, List.foldl_cons, ih (inv start), closer start, Nat.sub_sub,
      Nat.add_comm 1]

/-! ## Settling -/

namespace CounterUse

/-- The counter that decides about the branch at `pc`. -/
def decisive {σ : Type} (m : CounterUse σ) (p : σ) (pc : Addr) : Counter :=
  (m.counters p).get (m.consulted p pc)

/-- After `delay` repetitions of a branch the predictor is in a state that
further repetitions do not leave, and in which the branch trains the counter
that it consults and consults that counter ever after. -/
structure Settles {σ : Type} (m : CounterUse σ) (Inv : σ → Prop) (br : Branch) (delay : Nat)
    (Rest : σ → Prop) : Prop where
  reached : ∀ {p}, Inv p → Rest ((List.replicate delay br).foldl m.update p)
  inv : ∀ {p}, Rest p → Inv p
  update : ∀ {p}, Rest p → Rest (m.update p br)
  trained_eq : ∀ {p}, Rest p → m.trained p br = m.consulted p br.pc
  consulted_update : ∀ {p}, Rest p → m.consulted (m.update p br) br.pc = m.consulted p br.pc

namespace Settles

variable {σ : Type} {m : CounterUse σ} {bits : Nat} {Inv Rest : σ → Prop} {br : Branch}
  {delay : Nat}

/-- At rest, a repetition takes the consulted counter one step closer to the
outcome. -/
theorem stepsTo_update (settles : m.Settles Inv br delay Rest) (lawful : m.Lawful bits Inv)
    (wide : 0 < bits) {p : σ} (rest : Rest p) :
    (m.decisive (m.update p br) br.pc).stepsTo br.taken =
      (m.decisive p br.pc).stepsTo br.taken - 1 := by
  have inv := settles.inv rest
  have moves := (lawful.within inv (m.consulted p br.pc)).max_pos wide
  -- the counter that is consulted next is the one that this repetition trained
  rw [decisive, settles.consulted_update rest, lawful.get_update inv, settles.trained_eq rest,
    if_pos rfl, Counter.stepsTo_train_self moves]
  rfl

/-- Half of the range of a counter, after the delay, is enough to learn the
outcome. -/
theorem predict_eq (settles : m.Settles Inv br delay Rest) (lawful : m.Lawful bits Inv)
    (wide : 0 < bits) {p : σ} (inv : Inv p) {n : Nat} (enough : delay + 2 ^ (bits - 1) ≤ n) :
    m.predict ((List.replicate n br).foldl m.update p) br.pc = br.taken := by
  obtain ⟨k, rfl⟩ : ∃ k, n = delay + k :=
    Nat.exists_eq_add_of_le (Nat.le_trans (Nat.le_add_right _ _) enough)
  have rest := settles.reached inv
  have steps := steps_foldl_replicate (fun p => (m.decisive p br.pc).stepsTo br.taken)
    settles.update (settles.stepsTo_update lawful wide) rest k
  have farthest : (m.decisive ((List.replicate delay br).foldl m.update p) br.pc).stepsTo
      br.taken ≤ 2 ^ (bits - 1) :=
    (lawful.within (settles.inv rest) _).stepsTo_le wide br.taken
  rw [← List.replicate_append_replicate, List.foldl_append, lawful.predict_eq]
  refine (Counter.predictsTaken_eq_iff _ _).mpr (steps.trans ?_)
  omega

end Settles

end CounterUse

/-! ## Counters selected by address -/

/-- Without history there is nothing to wait for. -/
theorem Bimodal.settles (c : Config) (br : Branch) :
    Bimodal.counterUse.Settles (Bimodal.Sound c) br 0 (Bimodal.Sound c) where
  reached inv := inv
  inv rest := rest
  update rest := rest.update br
  trained_eq _ := rfl
  consulted_update _ := rfl

/-! ## Counters selected by address and global history -/

/-- Every resolved branch enters the global history. -/
theorem GShare.history_foldl (p : GShare) (trace : List Branch) :
    (trace.foldl GShare.update p).history = p.history.push (trace.map (·.taken)) := by
  induction trace generalizing p with
  | nil => rfl
  | cons br trace ih => exact ih (p.update br)

/-- A global history that is full of one outcome absorbs that outcome. -/
theorem GShare.Sound.shifted_eq {c : Config} (valid : c.Valid) {p : GShare} (sound : p.Sound c)
    {outcome : Bool} (filled : p.history.Repeats outcome c.historyLength) :
    p.history.shifted outcome = p.history :=
  filled.shifted_eq sound.history valid.historyLength_le_register

/-- A global history that is full of one outcome selects the same counter for
training as for prediction, in either order. -/
theorem GShare.settles {c : Config} (valid : c.Valid) (order : ShiftOrder) (br : Branch) :
    GShare.counterUse.Settles (fun p => p.Sound c ∧ p.order = order) br c.historyLength
      fun p => (p.Sound c ∧ p.order = order) ∧ p.history.Repeats br.taken c.historyLength where
  reached {p} inv := by
    refine ⟨(GShare.lawful_counterUse valid order).foldl inv _, ?_⟩
    change ((List.replicate _ br).foldl GShare.update p).history.Repeats _ _
    rw [history_foldl, List.map_replicate]
    exact inv.1.history.repeats_push_replicate valid.historyLength_le_register br.taken
  inv rest := rest.1
  update {p} rest := by
    refine ⟨(GShare.lawful_counterUse valid order).update rest.1 br, ?_⟩
    change (p.history.shifted br.taken).Repeats _ _
    rw [rest.1.1.shifted_eq valid rest.2]
    exact rest.2
  trained_eq {p} rest := by
    change p.scheme.index br.pc (p.trainingHistory br) p.indexBits = p.index br.pc
    -- the two orders train under histories that are the same by now
    unfold trainingHistory
    split
    · rw [rest.1.1.shifted_eq valid rest.2]
      rfl
    · rfl
  consulted_update {p} rest := by
    change p.scheme.index br.pc (p.history.shifted br.taken) p.indexBits = p.index br.pc
    rw [rest.1.1.shifted_eq valid rest.2]
    rfl

/-! ## Counters selected by local history -/

/-- A resolved branch enters the history of its own slot. -/
theorem TwoLevel.localHistory_update_self {c : Config} {p : TwoLevel} (sound : p.Sound c)
    (br : Branch) :
    (p.update br).localHistory br.pc = (p.localHistory br.pc).shifted br.taken :=
  (Table.get_modify _ _ _ _ (sound.slot_lt br.pc)).trans (if_pos rfl)

theorem TwoLevel.localHistory_replicate {c : Config} (valid : c.Valid) {p : TwoLevel}
    (sound : p.Sound c) (br : Branch) (n : Nat) :
    ((List.replicate n br).foldl TwoLevel.update p).localHistory br.pc =
      (p.localHistory br.pc).push (List.replicate n br.taken) := by
  induction n generalizing p with
  | zero => rfl
  | succ n ih =>
    rw [List.replicate_succ, List.foldl_cons, ih (sound.update valid br),
      localHistory_update_self sound, List.replicate_succ, History.push_cons]

/-- A local history that is full of one outcome absorbs that outcome. -/
theorem TwoLevel.Sound.localHistory_update_eq {c : Config} (valid : c.Valid) {p : TwoLevel}
    (sound : p.Sound c) {br : Branch}
    (filled : (p.localHistory br.pc).Repeats br.taken c.historyLength) :
    (p.update br).localHistory br.pc = p.localHistory br.pc :=
  (localHistory_update_self sound br).trans
    (filled.shifted_eq (sound.histories _) valid.historyLength_le_register)

/-- A local history that is full of one outcome goes on selecting its counter. -/
theorem TwoLevel.settles {c : Config} (valid : c.Valid) (br : Branch) :
    TwoLevel.counterUse.Settles (TwoLevel.Sound c) br c.historyLength
      fun p => p.Sound c ∧ (p.localHistory br.pc).Repeats br.taken c.historyLength where
  reached {p} sound := by
    refine ⟨(TwoLevel.lawful_counterUse valid).foldl sound _, ?_⟩
    change (((List.replicate _ br).foldl TwoLevel.update p).localHistory br.pc).Repeats _ _
    rw [localHistory_replicate valid sound]
    exact (sound.histories _).repeats_push_replicate valid.historyLength_le_register br.taken
  inv rest := rest.1
  update {p} rest := by
    refine ⟨rest.1.update valid br, ?_⟩
    change ((p.update br).localHistory br.pc).Repeats _ _
    rw [rest.1.localHistory_update_eq valid rest.2]
    exact rest.2
  trained_eq _ := rfl
  consulted_update rest := congrArg History.bits (rest.1.localHistory_update_eq valid rest.2)

end BranchPrediction
