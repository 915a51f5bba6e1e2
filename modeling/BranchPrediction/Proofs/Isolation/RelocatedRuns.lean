import Mathlib.Data.List.Forall2
import BranchPrediction.Proofs.Isolation.Relocation
/-!
# Runs of relocated programs

A fresh unit is asked for predictions and told how branches resolve. Now move
the whole program by a distance that leaves every index field alone. The same
unit, asked the moved questions and told of the moved branches, gives the same
directions, and where it has a target to serve it serves that target. Where it
has none, each program goes on with its own following instruction.

Nothing in this depends on where the program was. An empty slot has the tag of
the addresses at the bottom of memory, but it serves no target, so a program
that is moved there cannot take an empty slot for its own.

## Main definitions

* `Config.widestIndexBits`: the width of the largest table
* `PredictionUnit.exchanges`: the queries of a run with their answers
* `Exchange.Alike`: what corresponding answers have in common

## Main results

* `PredictionUnit.exchanges_relocated`: two programs that cannot be told apart
-/

namespace BranchPrediction

/-! ## Fresh units -/

section Fresh

variable {c : Config} {offset : Int}

/-- The width of the widest index field that a unit reads. -/
def Config.widestIndexBits (c : Config) : Nat :=
  max c.indexBits (max c.btbIndexBits c.phtIndexBits)

/-- What leaves the widest index field alone leaves every one alone. -/
theorem Config.aligned_of_widest (aligned : ((2 ^ c.widestIndexBits : Nat) : Int) ∣ offset) :
    ((2 ^ c.indexBits : Nat) : Int) ∣ offset ∧ ((2 ^ c.btbIndexBits : Nat) : Int) ∣ offset ∧
      ((2 ^ c.phtIndexBits : Nat) : Int) ∣ offset := by
  have narrower : ∀ n, n ≤ c.widestIndexBits → ((2 ^ n : Nat) : Int) ∣ offset := by
    intro n le
    have divides : ((2 ^ n : Nat) : Int) ∣ ((2 ^ c.widestIndexBits : Nat) : Int) := by
      exact_mod_cast Nat.pow_dvd_pow 2 le
    exact Int.dvd_trans divides aligned
  refine ⟨narrower _ ?_, narrower _ ?_, narrower _ ?_⟩ <;> unfold widestIndexBits <;> omega

/-- The tag of an empty slot may match, but the slot is not valid. -/
theorem TargetBuffer.relocated_fresh (valid : c.Valid)
    (aligned : ((2 ^ c.btbIndexBits : Nat) : Int) ∣ offset) :
    slotView.Relocated Sound offset (fresh c.btbEntries) (fresh c.btbEntries) :=
  SlotView.relocated_of_blank (sound_fresh valid) aligned (lookup_fresh c.btbEntries)

theorem CounterBuffer.held_fresh (entries : Nat) (pc : Addr) : (fresh entries).held pc = none := by
  have unused := lookup_eq_held (fresh entries) pc
  rw [lookup_fresh] at unused
  exact Option.map_eq_none_iff.mp unused.symm

theorem CounterBuffer.relocated_fresh (valid : c.Valid)
    (aligned : ((2 ^ c.btbIndexBits : Nat) : Int) ∣ offset) :
    slotView.Relocated Sound offset (fresh c.btbEntries) (fresh c.btbEntries) :=
  SlotView.relocated_of_blank (sound_fresh valid) aligned (held_fresh c.btbEntries)

theorem TargetCache.relocated_fresh (valid : c.Valid)
    (aligned : ((2 ^ c.btbIndexBits : Nat) : Int) ∣ offset) :
    (fresh c).Relocated offset (fresh c) := by
  unfold fresh
  split
  · exact .counters (CounterBuffer.relocated_fresh valid aligned)
  · exact .targets (TargetBuffer.relocated_fresh valid aligned)

theorem DirectionPredictor.relocated_fresh (valid : c.Valid)
    (aligned : ((2 ^ c.widestIndexBits : Nat) : Int) ∣ offset) {d : DirectionPredictor}
    (built : DirectionPredictor.fresh c = some d) : d.Relocated offset d := by
  obtain ⟨entries, targets, counters⟩ := Config.aligned_of_widest aligned
  refine of_fresh (P := fun d => d.Relocated offset d) ?_ ?_ ?_ ?_ ?_ built
  · exact .bare rfl entries
  · exact fun scheme order => .bare rfl counters
  · exact .gated counters (TargetBuffer.relocated_fresh valid targets)
  · exact .bare rfl entries
  · exact .bare rfl entries

theorem PredictionUnit.relocated_fresh (valid : c.Valid)
    (aligned : ((2 ^ c.widestIndexBits : Nat) : Int) ∣ offset) :
    (fresh c).Relocated offset (fresh c) where
  direction := by
    unfold fresh
    cases built : DirectionPredictor.fresh c with
    | none => exact .none
    | some d => exact .some (DirectionPredictor.relocated_fresh valid aligned built)
  targets := TargetCache.relocated_fresh valid (Config.aligned_of_widest aligned).2.1

end Fresh

/-! ## Answers -/

/-- A query with its answer. -/
structure Exchange where
  pc : Addr
  /-- The target that the unit kept for the branch at that moment. -/
  stored : Option Addr
  answer : Prediction
  deriving DecidableEq

/-- The same direction, and the same way to go on: both programs with their own
following instruction, or both at one target that was kept for both. -/
structure Exchange.Alike (e e' : Exchange) : Prop where
  taken_eq : e'.answer.taken = e.answer.taken
  address :
    e.answer.address = e.pc.next ∧ e'.answer.address = e'.pc.next ∨
      ∃ target, e.stored = some target ∧ e'.stored = some target ∧
        e.answer.address = target ∧ e'.answer.address = target

namespace PredictionUnit

/-- The query of a cycle with the answer to it, if there is a query. -/
def exchange? (u : PredictionUnit) (t : Cycle) : Option Exchange :=
  t.query.bind fun pc => (u.tick t.query t.resolved).1.map fun p => ⟨pc, u.storedTarget pc, p⟩

/-- What is asked and answered in each cycle of a run. -/
def exchanges (u : PredictionUnit) : List Cycle → List (Option Exchange)
  | [] => []
  | t :: run => u.exchange? t :: (u.tick t.query t.resolved).2.exchanges run

/-- A query is answered by the unit as it is at the start of the cycle. -/
theorem exchange?_eq (u : PredictionUnit) (t : Cycle) :
    u.exchange? t = t.query.map fun pc => ⟨pc, u.storedTarget pc, u.predict pc⟩ := by
  unfold exchange? tick
  cases t.query <;> cases t.resolved <;> rfl

variable {offset : Int} {u v : PredictionUnit}

/-- Corresponding queries get corresponding answers. -/
theorem Relocated.alike (moved : u.Relocated offset v) {pc pc' : Addr}
    (here : pc.Relocated offset pc') :
    Exchange.Alike ⟨pc, u.storedTarget pc, u.predict pc⟩
      ⟨pc', v.storedTarget pc', v.predict pc'⟩ := by
  obtain ⟨taken, target, left, right, kept⟩ := moved.exists_predict_eq here
  rw [left, right, moved.storedTarget_eq here]
  cases target with
  | none => exact ⟨rfl, .inl ⟨rfl, rfl⟩⟩
  | some a => exact ⟨rfl, .inr ⟨a, kept a rfl, kept a rfl, rfl, rfl⟩⟩

theorem Relocated.exchange? (moved : u.Relocated offset v) {t t' : Cycle}
    (cycle : t.Relocated offset t') :
    Option.Rel Exchange.Alike (u.exchange? t) (v.exchange? t') := by
  have queries := cycle.query
  rw [exchange?_eq, exchange?_eq]
  generalize t.query = left, t'.query = right at queries ⊢
  cases queries with
  | none => exact .none
  | some here => exact .some (moved.alike here)

/-- Units that show the same keep doing so, and the answers tell the two
programs apart at no moment. -/
theorem Relocated.exchanges (moved : u.Relocated offset v) {run run' : List Cycle}
    (cycles : List.Forall₂ (Cycle.Relocated offset) run run') :
    List.Forall₂ (Option.Rel Exchange.Alike) (u.exchanges run) (v.exchanges run') := by
  -- along both runs at once, with units that stay related
  induction cycles generalizing u v with
  | nil => exact .nil
  | cons cycle _ ih => exact .cons (moved.exchange? cycle) (ih (moved.tick cycle))

/-- **Relocation.** Move every branch of a run by a multiple of the size of the
largest table, wrapping around at the end of memory, with alignment bits of any
kind. The fresh unit gives corresponding queries the same direction, and each
program goes on with its own following instruction, or both do at the same
stored target. -/
theorem exchanges_relocated {c : Config} (accepted : c.validate = .ok ())
    (aligned : ((2 ^ c.widestIndexBits : Nat) : Int) ∣ offset) :
    ∃ u, PredictionUnit.ofConfig c = .ok u ∧ ∀ run run' : List Cycle,
      List.Forall₂ (Cycle.Relocated offset) run run' →
        List.Forall₂ (Option.Rel Exchange.Alike) (u.exchanges run) (u.exchanges run') := by
  have valid := (Config.validate_eq_ok_iff c).mp accepted
  refine ⟨fresh c, ofConfig_of_valid valid, ?_⟩
  intro run run' cycles
  exact (relocated_fresh valid aligned).exchanges cycles

/-- A unit with four slots in every table. -/
def fourSlots : Config :=
  { kind := .gshareBtb, entries := 4, historyLength := 2, phtIndexBits := 2, btbEntries := 4,
    targetCache := .counterIntegrated }

/-- A branch close to the end of memory, asked for before and after it was
taken. A second branch is of another word, in the same slot. -/
def highRun : List Cycle :=
  [⟨some (.ofNat 0xFFFFFFF0), some ⟨.ofNat 0xFFFFFFF1, .ofNat 0x40, true⟩⟩,
    ⟨none, none⟩,
    ⟨some (.ofNat 0xFFFFFFF3), some ⟨.ofNat 0xFFFFFFF0, .ofNat 0x80, false⟩⟩,
    ⟨some (.ofNat 0xFFFFFFE0), none⟩]

/-- The same program four words further on. The first branch is now at the
start of memory, where addresses have the tag of an empty slot. -/
def lowRun : List Cycle :=
  [⟨some (.ofNat 0x2), some ⟨.ofNat 0x0, .ofNat 0x40, true⟩⟩,
    ⟨none, none⟩,
    ⟨some (.ofNat 0x1), some ⟨.ofNat 0x3, .ofNat 0x80, false⟩⟩,
    ⟨some (.ofNat 0xFFFFFFF2), none⟩]

/-- Both programs fall through at first, then go to the stored target. -/
theorem exchanges_relocated_wrapped :
    fourSlots.validate = .ok () ∧ ((2 ^ fourSlots.widestIndexBits : Nat) : Int) ∣ 4 ∧
      List.Forall₂ (Cycle.Relocated 4) highRun lowRun ∧
      List.Forall₂ (Option.Rel Exchange.Alike)
        ((fresh fourSlots).exchanges highRun) ((fresh fourSlots).exchanges lowRun) ∧
      ((fresh fourSlots).exchanges highRun).map (·.map (·.answer)) =
        [some (.fallThrough (.ofNat 0xFFFFFFF0)), none, some (.jump (.ofNat 0x40)),
          some (.fallThrough (.ofNat 0xFFFFFFE0))] ∧
      ((fresh fourSlots).exchanges lowRun).map (·.map (·.answer)) =
        [some (.fallThrough (.ofNat 0x2)), none, some (.jump (.ofNat 0x40)),
          some (.fallThrough (.ofNat 0xFFFFFFF2))] := by
  have aligned : ((2 ^ fourSlots.widestIndexBits : Nat) : Int) ∣ 4 := by decide
  have moved : List.Forall₂ (Cycle.Relocated 4) highRun lowRun :=
    .cons ⟨.some (by decide), .some ⟨by decide, rfl, rfl⟩⟩ <|
    .cons ⟨.none, .none⟩ <|
    .cons ⟨.some (by decide), .some ⟨by decide, rfl, rfl⟩⟩ <|
    .cons ⟨.some (by decide), .none⟩ .nil
  obtain ⟨u, built, alike⟩ := exchanges_relocated (c := fourSlots) rfl aligned
  obtain rfl : fresh fourSlots = u := Except.ok.inj built
  exact ⟨rfl, aligned, moved, alike highRun lowRun moved, by decide, by decide⟩

end PredictionUnit

end BranchPrediction
