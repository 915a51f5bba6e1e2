import BranchPrediction.Branch
import BranchPrediction.Text
import BranchPrediction.Workload.Lfsr
/-!
# Synthetic workloads

Each workload is a kernel with one branch pattern, invoked a number of times.
The kernels lie 4 KiB apart, each with its own branch addresses, and every loop
of a kernel ends with a branch back to its top that is taken on all but the
last iteration.

## Main definitions

* `Workload`: the kernels
* `Workload.base`: where the code of a kernel starts
* `Workload.invoke`: the branches of one invocation
* `Workload.generate`: the branches of several invocations
* `Workload.ofName?`: the kernel of a name
-/

namespace BranchPrediction

/-- The kernels. -/
inductive Workload where
  /-- Branches whose outcome is a function of the loop counter's bits. -/
  | correlated
  /-- Branches driven by a shift register with feedback. -/
  | random
  /-- Nested loops with varying trip counts and an early exit. -/
  | nestedLoops
  /-- A call site that cycles through four targets. -/
  | indirect
  /-- A branch that is not taken and taken in turn. -/
  | alternating
  /-- A branch that is taken seven times out of eight. -/
  | bimodal
  /-- A branch whose outcome is a function of its own last six outcomes. -/
  | longHistory
  /-- A jump table with eight targets. -/
  | switch
  deriving DecidableEq

namespace Workload

/-- The kernels in the order of their code. -/
def all : List Workload :=
  [correlated, random, nestedLoops, indirect, alternating, bimodal, longHistory, switch]

/-- The written name. -/
def name : Workload → String
  | correlated => "correlated"
  | random => "random"
  | nestedLoops => "nested-loops"
  | indirect => "indirect"
  | alternating => "alternating"
  | bimodal => "bimodal"
  | longHistory => "long-history"
  | switch => "switch"

/-- The kernel of a name, whatever its case. -/
def ofName? (name : String) : Option Workload :=
  all.find? fun w => sameIgnoringCase w.name name

/-- The position of a kernel in the order of their code. -/
def position : Workload → Nat
  | correlated => 0
  | random => 1
  | nestedLoops => 2
  | indirect => 3
  | alternating => 4
  | bimodal => 5
  | longHistory => 6
  | switch => 7

/-- Where the code of a kernel starts. -/
def base (w : Workload) : Nat :=
  0x10000 + 0x1000 * w.position

/-! ## Kernels -/

/-- The branch from `pc` to `target`, both given by their offsets from `base`. -/
def branchAt (base pc target : Nat) (taken : Bool) : Branch :=
  ⟨Addr.ofNat (base + pc), Addr.ofNat (base + target), taken⟩

/-- The iterations of a loop of `n` rounds, each with its back edge at offset
`pc`, which goes to the top of the loop at offset `top`. -/
def loop (base pc top n : Nat) (body : Nat → List Branch) : List Branch :=
  (List.range n).flatMap fun i => body i ++ [branchAt base pc top (i + 1 < n)]

/-- Two branches on the low three bits of the loop counter. -/
def correlatedKernel (base : Nat) : List Branch :=
  loop base 0x3C 0x04 64 fun i =>
    let a := i.testBit 0
    let b := i.testBit 1
    let c := i.testBit 2
    [branchAt base 0x10 0x20 ((a ^^ b) && c), branchAt base 0x24 0x30 (a && !b)]

/-- The last `n` rounds of the loop of random branches, each of which starts with
a step of the register. -/
def randomRounds (base : Nat) : Nat → Lfsr → List Branch × Lfsr
  | 0, s => ([], s)
  | n + 1, s =>
    let s := s.next
    let (rest, final) := randomRounds base n s
    (branchAt base 0x10 0x20 (s.bit 0) :: branchAt base 0x24 0x30 (s.bit 3) ::
      branchAt base 0x3C 0x04 (0 < n) :: rest, final)

/-- The rounds `j, j + 1, …` of an inner loop of `limit` rounds. The exit branch
at the top of round `exit` is taken, if there is such a round. -/
def innerRounds (base limit : Nat) (exit : Option Nat) : List Nat → List Branch
  | [] => []
  | j :: rest =>
    if exit = some j then [branchAt base 0x20 0x40 true]
    else branchAt base 0x20 0x40 false :: branchAt base 0x30 0x14 (j + 1 < limit) ::
      innerRounds base limit exit rest

/-- Sixteen inner loops of eight to eleven rounds. Those of odd number leave
early, at the top of their ninth round. -/
def nestedLoopsKernel (base : Nat) : List Branch :=
  loop base 0x48 0x04 16 fun i =>
    let limit := 8 + i % 4
    innerRounds base limit (if i % 2 = 1 then some 8 else none) (List.range limit)

/-- A call that goes to four functions in turn. -/
def indirectKernel (base : Nat) : List Branch :=
  loop base 0x1C 0x04 32 fun i => [branchAt base 0x10 (0x800 + 0x80 * (i % 4)) true]

/-- A branch that is taken in odd rounds. -/
def alternatingKernel (base : Nat) : List Branch :=
  loop base 0x2C 0x04 128 fun i => [branchAt base 0x10 0x20 (i % 2 == 1)]

/-- A branch that is not taken in every eighth round. -/
def bimodalKernel (base : Nat) : List Branch :=
  loop base 0x2C 0x04 128 fun i => [branchAt base 0x10 0x20 (i % 8 != 7)]

/-- The next outcome of a branch that depends on its outcomes one, three and six
rounds ago, which are bits 0, 2 and 5 of `history`. -/
def nextOutcome (history : Nat) : Bool :=
  history.testBit 0 ^^ history.testBit 2 ^^ history.testBit 5

/-- The last eight outcomes after `n` rounds. They start with a single taken one,
since a branch that was never taken would stay so. -/
def outcomesAfter : Nat → Nat
  | 0 => 1
  | n + 1 =>
    let history := outcomesAfter n
    (2 * history + (nextOutcome history).toNat) % 0x100

/-- A branch that is a function of its own history. -/
def longHistoryKernel (base : Nat) : List Branch :=
  loop base 0x2C 0x04 128 fun i => [branchAt base 0x10 0x20 (nextOutcome (outcomesAfter i))]

/-- A jump to eight cases in turn. -/
def switchKernel (base : Nat) : List Branch :=
  loop base 0x1C 0x04 64 fun i => [branchAt base 0x10 (0x100 + 0x10 * (i % 8)) true]

/-! ## Traces -/

/-- The branches of one invocation, with the register that drives the random
kernel before and after. -/
def invoke (w : Workload) (s : Lfsr) : List Branch × Lfsr :=
  match w with
  | correlated => (correlatedKernel w.base, s)
  | random => randomRounds w.base 64 s
  | nestedLoops => (nestedLoopsKernel w.base, s)
  | indirect => (indirectKernel w.base, s)
  | alternating => (alternatingKernel w.base, s)
  | bimodal => (bimodalKernel w.base, s)
  | longHistory => (longHistoryKernel w.base, s)
  | switch => (switchKernel w.base, s)

/-- The branches of `n` invocations that start with a given register. -/
def generateFrom (w : Workload) : Nat → Lfsr → List Branch
  | 0, _ => []
  | n + 1, s =>
    let (branches, s) := w.invoke s
    branches ++ w.generateFrom n s

/-- The branches of `n` invocations. -/
def generate (w : Workload) (n : Nat) : List Branch :=
  w.generateFrom n Lfsr.seed

end Workload

end BranchPrediction
