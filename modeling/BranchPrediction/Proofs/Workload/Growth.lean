import Mathlib.Logic.Function.Iterate
import BranchPrediction.Workload.Basic
/-!
# How workloads grow

A workload is a kernel that is invoked a number of times. What one invocation leaves to
the next is at most a register, so a longer workload goes on where a shorter one stops.
Only one kernel has a register. The others start every invocation afresh, and their
workloads are put together from shorter ones in any way.

Every branch of a kernel lies at an offset in the code of the kernel, and so does its
target. There is one region of code for each kernel, and kernels are told apart by the
addresses of their branches. The last branch of an invocation is the back edge of its
outermost loop, which is not taken any more.

## Main definitions

* `Addr.InRegion`: the instruction addresses of one kernel's code
* `Workload.IsInvocation`: what the branches of an invocation have in common
* `Workload.registerAfter`: what some invocations leave behind

## Main results

* `Workload.isInvocation_invoke`: the branches of every kernel
* `Workload.generateFrom_add`: a workload goes on where a shorter one stops
* `Workload.generate_extends_in_region`: how workloads grow, and where they stay
-/

namespace BranchPrediction

/-- The aligned addresses of the 4 KiB of code of the kernel in position `i`. -/
structure Addr.InRegion (i : Nat) (a : Addr) : Prop where
  aligned : 4 ∣ a.val
  le : 0x10000 + 0x1000 * i ≤ a.val
  lt : a.val < 0x10000 + 0x1000 * (i + 1)

/-- Regions in different positions have no address in common. -/
theorem Addr.InRegion.position_eq {i j : Nat} {a : Addr} (first : a.InRegion i)
    (second : a.InRegion j) : i = j := by
  have := first.le
  have := first.lt
  have := second.le
  have := second.lt
  omega

namespace Workload

/-! ## Addresses -/

/-- The offsets of instructions in 4 KiB of code. -/
def IsOffset (n : Nat) : Prop :=
  n % 4 = 0 ∧ n < 0x1000

instance (n : Nat) : Decidable (IsOffset n) :=
  inferInstanceAs (Decidable (_ ∧ _))

/-- A branch in the code that starts at `base`, with its target in the same code. -/
inductive InCode (base : Nat) : Branch → Prop
  | branchAt {pc target : Nat} (taken : Bool) (source : IsOffset pc) (goal : IsOffset target) :
    InCode base (branchAt base pc target taken)

theorem inRegion_of_isOffset {i n : Nat} (few : i < 8) (offset : IsOffset n) :
    (Addr.ofNat (0x10000 + 0x1000 * i + n)).InRegion i := by
  obtain ⟨aligned, inside⟩ := offset
  have whole : (Addr.ofNat (0x10000 + 0x1000 * i + n)).val = 0x10000 + 0x1000 * i + n :=
    Nat.mod_eq_of_lt (by omega)
  constructor
  case aligned => omega
  case le => omega
  case lt => omega

theorem position_lt (w : Workload) : w.position < 8 := by
  cases w <;> decide

theorem idxOf_all (w : Workload) : all.idxOf w = w.position := by
  cases w <;> rfl

theorem position_injective {w w' : Workload} (same : w.position = w'.position) : w = w' := by
  have listed : ∀ w : Workload, all[w.position]? = some w := by
    intro w
    cases w <;> rfl
  exact Option.some.inj ((listed w).symm.trans (same ▸ listed w'))

theorem InCode.inRegion {w : Workload} {br : Branch} (inCode : InCode w.base br) :
    br.pc.InRegion w.position ∧ br.target.InRegion w.position := by
  obtain ⟨taken, source, goal⟩ := inCode
  exact ⟨inRegion_of_isOffset w.position_lt source, inRegion_of_isOffset w.position_lt goal⟩

variable {base : Nat}

theorem inCode_nil : ∀ br ∈ [], InCode base br :=
  fun _ member => nomatch member

theorem inCode_cons {pc target : Nat} {taken : Bool} {branches : List Branch}
    (inCode : ∀ br ∈ branches, InCode base br) (source : IsOffset pc := by decide)
    (goal : IsOffset target := by decide) :
    ∀ br ∈ branchAt base pc target taken :: branches, InCode base br :=
  List.forall_mem_cons.mpr ⟨.branchAt taken source goal, inCode⟩

/-! ## Invocations -/

/-- The branches of an invocation of a kernel: all of them are in its code, and the last one
is not taken. -/
structure IsInvocation (base : Nat) (branches : List Branch) : Prop where
  inCode : ∀ br ∈ branches, InCode base br
  ends : ∃ br, branches.getLast? = some br ∧ br.taken = false

/-- Other branches of the code can come before an invocation. -/
theorem IsInvocation.append {earlier later : List Branch} (inCode : ∀ br ∈ earlier, InCode base br)
    (invocation : IsInvocation base later) : IsInvocation base (earlier ++ later) where
  inCode br member := (List.mem_append.mp member).elim (inCode br) (invocation.inCode br)
  ends := by
    obtain ⟨br, last, fallsThrough⟩ := invocation.ends
    exact ⟨br, by rw [List.getLast?_append, last, Option.some_or], fallsThrough⟩

/-- A loop ends with its back edge. -/
theorem isInvocation_loop {pc top n : Nat} {body : Nat → List Branch}
    (inCode : ∀ i < n + 1, ∀ br ∈ body i, InCode base br) (source : IsOffset pc := by decide)
    (goal : IsOffset top := by decide) :
    IsInvocation base (loop base pc top (n + 1) body) where
  inCode br member := by
    obtain ⟨i, below, round⟩ := List.mem_flatMap.mp member
    rcases List.mem_append.mp round with inner | back
    · exact inCode i (List.mem_range.mp below) br inner
    · obtain rfl := List.mem_singleton.mp back
      exact .branchAt _ source goal
  ends := by
    refine ⟨branchAt base pc top false, ?_, rfl⟩
    rw [loop, List.range_succ, List.flatMap_append, List.flatMap_singleton, ← List.append_assoc,
      List.getLast?_append]
    simp

theorem isInvocation_randomRounds (n : Nat) (s : Lfsr) :
    IsInvocation base (randomRounds base (n + 1) s).1 := by
  have round : ∀ {a b c : Bool}, ∀ br ∈
      [branchAt base 0x10 0x20 a, branchAt base 0x24 0x30 b, branchAt base 0x3C 0x04 c],
        InCode base br :=
    inCode_cons (inCode_cons (inCode_cons inCode_nil))
  induction n generalizing s with
  | zero => exact ⟨round, _, rfl, rfl⟩
  | succ n ih => exact (ih s.next).append round

/-- An inner loop of the nested loops, wherever it is left. -/
theorem inCode_innerRounds (limit : Nat) (exit : Option Nat) (rounds : List Nat) :
    ∀ br ∈ innerRounds base limit exit rounds, InCode base br := by
  induction rounds with
  | nil => exact inCode_nil
  | cons j rest ih =>
    rw [innerRounds]
    split
    · exact inCode_cons inCode_nil
    · exact inCode_cons (inCode_cons ih)

/-- Whatever is in the register, the branches of a kernel are an invocation of it. -/
theorem isInvocation_invoke (w : Workload) (s : Lfsr) : IsInvocation w.base (w.invoke s).1 := by
  cases w with
  | correlated => exact isInvocation_loop fun i _ => inCode_cons (inCode_cons inCode_nil)
  | random => exact isInvocation_randomRounds 63 s
  | nestedLoops => exact isInvocation_loop fun i _ => inCode_innerRounds _ _ _
  | indirect =>
    -- four functions, 128 bytes apart
    have goal : ∀ i, IsOffset (0x800 + 0x80 * (i % 4)) := fun i => ⟨by omega, by omega⟩
    exact isInvocation_loop fun i _ => inCode_cons inCode_nil (by decide) (goal i)
  | switch =>
    -- eight cases, 16 bytes apart
    have goal : ∀ i, IsOffset (0x100 + 0x10 * (i % 8)) := fun i => ⟨by omega, by omega⟩
    exact isInvocation_loop fun i _ => inCode_cons inCode_nil (by decide) (goal i)
  | alternating | bimodal | longHistory =>
    exact isInvocation_loop fun i _ => inCode_cons inCode_nil

/-! ## Growth -/

/-- The register after `n` invocations. -/
def registerAfter (w : Workload) (n : Nat) (s : Lfsr) : Lfsr :=
  (fun s => (w.invoke s).2)^[n] s

/-- Only the random kernel moves the register. -/
theorem registerAfter_of_ne {w : Workload} (steady : w ≠ random) (n : Nat) (s : Lfsr) :
    w.registerAfter n s = s := by
  apply Function.iterate_fixed
  cases w with
  | random => exact absurd rfl steady
  | _ => rfl

theorem generateFrom_succ (w : Workload) (n : Nat) (s : Lfsr) :
    w.generateFrom (n + 1) s = (w.invoke s).1 ++ w.generateFrom n (w.invoke s).2 :=
  rfl

/-- Later invocations go on with the register that the earlier ones left. -/
theorem generateFrom_add (w : Workload) (n m : Nat) (s : Lfsr) :
    w.generateFrom (n + m) s = w.generateFrom n s ++ w.generateFrom m (w.registerAfter n s) := by
  -- the first invocation leaves another register to the ones that are still to come
  induction n generalizing s with
  | zero =>
    rw [Nat.zero_add]
    rfl
  | succ n ih =>
    rw [Nat.add_right_comm, generateFrom_succ, ih, ← List.append_assoc, ← generateFrom_succ]
    rfl

/-- A workload with at least one invocation looks like a single one. -/
theorem isInvocation_generateFrom (w : Workload) (n : Nat) (s : Lfsr) :
    IsInvocation w.base (w.generateFrom (n + 1) s) := by
  induction n generalizing s with
  | zero =>
    rw [generateFrom_succ, generateFrom, List.append_nil]
    exact w.isInvocation_invoke s
  | succ n ih =>
    rw [generateFrom_succ]
    exact (ih _).append (w.isInvocation_invoke s).inCode

theorem inCode_generate {w : Workload} {n : Nat} {br : Branch} (member : br ∈ w.generate n) :
    InCode w.base br := by
  cases n with
  | zero => cases member
  | succ n => exact (w.isInvocation_generateFrom n Lfsr.seed).inCode br member

/-- **Workloads grow by extension, and in a region of their own.** A workload starts with
every shorter one of its kernel, and but for the random kernel it goes on with a workload of
the remaining invocations. Its branches and their targets are aligned, and they lie in the 4
KiB that belong to the position of the kernel among all kernels. So the workloads of two
kernels have no branch address in common. And a workload that is not empty ends with a branch
that is not taken. -/
theorem generate_extends_in_region (w : Workload) (n m : Nat) :
    w.generate n <+: w.generate (n + m) ∧
    (w ≠ random → w.generate (n + m) = w.generate n ++ w.generate m) ∧
    (∀ br ∈ w.generate n,
      br.pc.InRegion (all.idxOf w) ∧ br.target.InRegion (all.idxOf w)) ∧
    (∀ w' ≠ w, ∀ br ∈ w.generate n, ∀ br' ∈ w'.generate m, br.pc ≠ br'.pc) ∧
    (1 ≤ n → ∃ br, (w.generate n).getLast? = some br ∧ br.taken = false) := by
  have grown : w.generate (n + m) =
      w.generate n ++ w.generateFrom m (w.registerAfter n Lfsr.seed) :=
    w.generateFrom_add n m Lfsr.seed
  refine ⟨?_, ?_, ?_, ?_, ?_⟩
  · rw [grown]
    exact List.prefix_append _ _
  · intro steady
    rw [grown, registerAfter_of_ne steady]
    rfl
  · intro br member
    rw [idxOf_all]
    exact (inCode_generate member).inRegion
  · intro w' other br member br' member' same
    have here := (inCode_generate member).inRegion.1
    have there := (inCode_generate member').inRegion.1
    rw [← same] at there
    exact other (position_injective (there.position_eq here))
  · intro nonempty
    obtain ⟨k, rfl⟩ := Nat.exists_eq_add_of_le' nonempty
    exact (w.isInvocation_generateFrom k Lfsr.seed).ends

end Workload

end BranchPrediction
