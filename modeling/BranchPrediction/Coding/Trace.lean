import BranchPrediction.Coding.Basic
import BranchPrediction.Stats.Basic
import BranchPrediction.Workload.Basic
/-!
# Codings of traces and results

Branches, predictions and counts are records of which every field must be
given.

## Main definitions

* `Coding.addr`, `Coding.workload`
* `Coding.branch`, `Coding.request`: a resolved branch in a trace, and as it is
  sent to a unit
* `Coding.prediction`, `Coding.stats`
* `Coding.trace`: a list of resolved branches
-/

namespace BranchPrediction.Coding

/-- Addresses are 32-bit numbers. -/
def addr : Coding Addr where
  encode a := .ofNat a.val
  decode j := Addr.ofNat <$> (natBelow (2 ^ 32)).decode j

/-- Counts are 64-bit numbers. -/
def count : Coding Nat :=
  natBelow (2 ^ 64)

/-- Workloads are given by name. -/
def workload : Coding Workload :=
  names Workload.all Workload.name []

/-- A resolved branch whose address has a given key. -/
def branchWith (key : String) : Coding Branch where
  encode br := .ofMembers [
    (key, addr.encode br.pc),
    ("target", addr.encode br.target),
    ("taken", bool.encode br.taken)]
  decode j := do
    match ← j.fields? [key, "target", "taken"] with
    | [some pc, some target, some taken] =>
      return ⟨← addr.decode pc, ← addr.decode target, ← bool.decode taken⟩
    | _ => none

/-- A resolved branch in a trace. -/
def branch : Coding Branch :=
  branchWith "pc"

/-- A resolved branch as it is sent to a prediction unit. -/
def request : Coding Branch :=
  branchWith "address"

def prediction : Coding Prediction where
  encode p := .ofMembers [
    ("taken", bool.encode p.taken),
    ("predicted_address", addr.encode p.address)]
  decode j := do
    match ← j.fields? ["taken", "predicted_address"] with
    | [some taken, some address] => return ⟨← bool.decode taken, ← addr.decode address⟩
    | _ => none

/-- The counts of a run. -/
def stats : Coding Stats where
  encode s := .ofMembers [
    ("branches", count.encode s.branches),
    ("taken_branches", count.encode s.takenBranches),
    ("direction_mispredictions", count.encode s.directionMispredictions),
    ("target_mispredictions", count.encode s.targetMispredictions)]
  decode j := do
    match ← j.fields? ["branches", "taken_branches", "direction_mispredictions",
        "target_mispredictions"] with
    | [some branches, some taken, some direction, some target] =>
      return ⟨← count.decode branches, ← count.decode taken, ← count.decode direction,
        ← count.decode target⟩
    | _ => none

/-- A trace is an array of resolved branches. -/
def trace : Coding (List Branch) :=
  list branch

end BranchPrediction.Coding
