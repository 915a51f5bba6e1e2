import BranchPrediction.Proofs.Targets.Served
/-!
# Every wrong fetch is counted

What a wrong prediction costs is a fetch from the wrong address. The counts of a
run do not mention addresses that were fetched: they classify each branch by its
direction, and by its target if the direction was right and the branch taken. A
branch that was rightly predicted not taken is not looked at further.

No wrong fetch is lost there, because every unit predicts not taken with the
address of the following instruction, whatever it keeps for the branch. The two
classes exclude each other, and the second has only taken branches that were
predicted taken, which bounds the counts from above.

## Main definitions

* `Branch.successor`: where a program goes on after a branch
* `Simulator.log`: the predictions of a replay, each with its branch
* `Stats.Counts`: counts that say what is in a log

## Main results

* `PredictionUnit.address_of_not_taken`: what not taken means
* `Simulator.counts_run`: the counts of a run are those of its log
* `Simulator.wrongFetches_le_mispredictions`: what the counts promise
-/

namespace BranchPrediction

/-- The address of the instruction that comes after a branch. -/
def Branch.successor (br : Branch) : Addr :=
  if br.taken then br.target else br.pc.next

/-- A branch that is predicted not taken goes on with the following instruction. -/
theorem PredictionUnit.address_of_not_taken {u : PredictionUnit} {pc : Addr}
    (notTaken : (u.predict pc).taken = false) : (u.predict pc).address = pc.next := by
  by_cases there : (u.predict pc).address = pc.next
  · exact there
  · obtain ⟨taken, -⟩ := stored_of_address_ne there
    rw [notTaken] at taken
    cases taken

/-! ## Single branches -/

namespace Stats

/-- Whether the instruction after a branch was fetched from a wrong address. -/
def wrongFetch (p : Prediction) (br : Branch) : Bool :=
  p.address != br.successor

/-- Whether a taken branch was predicted not taken. -/
def missedTaken (p : Prediction) (br : Branch) : Bool :=
  br.taken && !p.taken

variable {p : Prediction} {br : Branch}

/-- A wrong fetch is a wrong direction or a wrong target. -/
theorem wrongFetch_le (plain : p.taken = false → p.address = br.pc.next) :
    (wrongFetch p br).toNat ≤ (wrongDirection p br).toNat + (wrongTarget p br).toNat := by
  cases wrong : wrongDirection p br with
  | true => exact Nat.le_trans (Bool.toNat_le _) (Nat.le_add_right _ _)
  | false =>
    have right : p.taken = br.taken := by simpa [wrongDirection] using wrong
    cases taken : br.taken with
    | true => simp [wrongFetch, wrongTarget, Branch.successor, right, taken]
    | false =>
      -- not looked at further, and the address is the right one
      simp [wrongFetch, Branch.successor, taken, plain (right.trans taken)]

theorem wrongDirection_add_wrongTarget_le (p : Prediction) (br : Branch) :
    (wrongDirection p br).toNat + (wrongTarget p br).toNat ≤ 1 := by
  cases predicted : p.taken <;> cases taken : br.taken <;>
    simp [wrongDirection, wrongTarget, predicted, taken, Bool.toNat_le]

theorem wrongTarget_add_missedTaken_le (p : Prediction) (br : Branch) :
    (wrongTarget p br).toNat + (missedTaken p br).toNat ≤ br.taken.toNat := by
  cases predicted : p.taken <;> cases taken : br.taken <;>
    simp [wrongTarget, missedTaken, predicted, taken, Bool.toNat_le]

end Stats

/-! ## Logs -/

namespace Simulator

/-- The predictions that the steps of a replay return, each with its branch. -/
def log (s : Simulator) : List Branch → List (Prediction × Branch)
  | [] => []
  | br :: trace => ((s.step br).1, br) :: (s.step br).2.log trace

theorem map_snd_log (s : Simulator) (trace : List Branch) :
    (s.log trace).map Prod.snd = trace := by
  induction trace generalizing s with
  | nil => rfl
  | cons br trace ih => rw [log, List.map_cons, ih]

theorem length_log (s : Simulator) (trace : List Branch) :
    (s.log trace).length = trace.length := by
  have branches := congrArg List.length (map_snd_log s trace)
  rwa [List.length_map] at branches

theorem countP_taken_log (s : Simulator) (trace : List Branch) :
    (s.log trace).countP (fun e => e.2.taken) = trace.countP (·.taken) := by
  have branches := congrArg (List.countP (·.taken)) (map_snd_log s trace)
  rwa [List.countP_map] at branches

/-- A logged prediction that is not taken goes on with the following instruction. -/
theorem address_of_mem_log {s : Simulator} {trace : List Branch} {p : Prediction} {br : Branch}
    (logged : (p, br) ∈ s.log trace) (notTaken : p.taken = false) : p.address = br.pc.next := by
  induction trace generalizing s with
  | nil => cases logged
  | cons first trace ih =>
    -- the rest of the log is that of the simulator after one step
    rcases List.mem_cons.mp logged with same | later
    · obtain ⟨rfl, rfl⟩ := Prod.mk.inj same
      exact PredictionUnit.address_of_not_taken notTaken
    · exact ih later

end Simulator

namespace Stats

/-- Counts that say how many branches of each class are in a log. -/
structure Counts (s : Stats) (log : List (Prediction × Branch)) : Prop where
  branches_eq : s.branches = log.length
  takenBranches_eq : s.takenBranches = log.countP fun e => e.2.taken
  directionMispredictions_eq :
    s.directionMispredictions = log.countP fun e => wrongDirection e.1 e.2
  targetMispredictions_eq : s.targetMispredictions = log.countP fun e => wrongTarget e.1 e.2

theorem countP_cons_eq_toNat {α : Type} (q : α → Bool) (a : α) (l : List α) :
    (a :: l).countP q = (q a).toNat + l.countP q := by
  rw [List.countP_cons, Nat.add_comm]
  cases q a <;> rfl

theorem counts_empty : empty.Counts [] :=
  ⟨rfl, rfl, rfl, rfl⟩

/-- One more branch at the start of a log. -/
theorem Counts.cons {s : Stats} {log : List (Prediction × Branch)} (counts : s.Counts log)
    (p : Prediction) (br : Branch) : ((empty.record p br).merge s).Counts ((p, br) :: log) := by
  obtain ⟨branches, takenBranches, directions, targets⟩ := counts
  constructor
  · simp only [merge, record, empty, List.length_cons, branches]
    omega
  · simp only [merge, record, empty, countP_cons_eq_toNat, takenBranches]
    omega
  · simp only [merge, record, empty, countP_cons_eq_toNat, directions]
    omega
  · simp only [merge, record, empty, countP_cons_eq_toNat, targets]
    omega

/-- What the classes of a log have to do with each other. -/
structure Bounds (log : List (Prediction × Branch)) : Prop where
  wrongFetches_le : log.countP (fun e => wrongFetch e.1 e.2) ≤
    log.countP (fun e => wrongDirection e.1 e.2) + log.countP (fun e => wrongTarget e.1 e.2)
  mispredictions_le : log.countP (fun e => wrongDirection e.1 e.2) +
    log.countP (fun e => wrongTarget e.1 e.2) ≤ log.length
  missedTaken_le : log.countP (fun e => wrongTarget e.1 e.2) +
    log.countP (fun e => missedTaken e.1 e.2) ≤ log.countP fun e => e.2.taken

theorem bounds_of_plain {log : List (Prediction × Branch)}
    (plain : ∀ p br, (p, br) ∈ log → p.taken = false → p.address = br.pc.next) : Bounds log := by
  induction log with
  | nil => exact ⟨Nat.le_refl _, Nat.le_refl _, Nat.le_refl _⟩
  | cons e log ih =>
    -- each bound holds for the first branch and for the rest
    obtain ⟨p, br⟩ := e
    obtain ⟨wrongFetches, mispredictions, missed⟩ :=
      ih fun p br later => plain p br (List.mem_cons_of_mem _ later)
    have fetch := wrongFetch_le (plain p br List.mem_cons_self)
    have exclusive := wrongDirection_add_wrongTarget_le p br
    have share := wrongTarget_add_missedTaken_le p br
    constructor <;> simp only [countP_cons_eq_toNat, List.length_cons] <;> omega

end Stats

namespace Simulator

theorem counts_tally (s : Simulator) (trace : List Branch) :
    (s.unit.tally trace).Counts (s.log trace) := by
  induction trace generalizing s with
  | nil => exact Stats.counts_empty
  | cons br trace ih => exact (ih (s.step br).2).cons (s.unit.predict br.pc) br

/-- The counts of a run are those of its log. -/
theorem counts_run (s : Simulator) (trace : List Branch) :
    (s.run trace).1.Counts (s.log trace) := by
  rw [run_eq]
  exact counts_tally s trace

theorem bounds_log (s : Simulator) (trace : List Branch) : Stats.Bounds (s.log trace) :=
  Stats.bounds_of_plain fun _ _ logged notTaken => address_of_mem_log logged notTaken

/-- **No wrong fetch goes uncounted.** Whatever a simulator has seen before, the
counts of a run list every branch of the trace and every taken one, and there
are at least as many mispredictions as steps that predicted an address where the
program did not go on. Mispredictions are counted once for each branch, and a
taken branch that was predicted not taken is not a wrong target as well. -/
theorem wrongFetches_le_mispredictions (s : Simulator) (trace : List Branch) :
    let counts := (s.run trace).1
    let log := s.log trace
    log.countP (fun e => Stats.wrongFetch e.1 e.2) ≤ counts.mispredictions ∧
      counts.branches = trace.length ∧
      counts.takenBranches = trace.countP (·.taken) ∧
      counts.directionMispredictions + counts.targetMispredictions ≤ counts.branches ∧
      counts.targetMispredictions + log.countP (fun e => Stats.missedTaken e.1 e.2) ≤
        counts.takenBranches := by
  intro counts log
  obtain ⟨branches, takenBranches, directions, targets⟩ := counts_run s trace
  obtain ⟨wrongFetches, mispredictions, missed⟩ := bounds_log s trace
  refine ⟨?_, ?_, ?_, ?_, ?_⟩
  · rw [Stats.mispredictions, directions, targets]
    exact wrongFetches
  · rw [branches, length_log]
  · rw [takenBranches, countP_taken_log]
  · rw [directions, targets, branches]
    exact mispredictions
  · rw [targets, takenBranches]
    exact missed

end Simulator

end BranchPrediction
