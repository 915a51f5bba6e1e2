import BranchPrediction.Proofs.Coding.Configs
/-!
# Traces and results are read back

The codings of traces and of everything that a run gives keep all values. Addresses
are below their limit by construction; of the counts only those that fit into 64
bits can be read, and these are kept. So a trace that was written to a file is the
trace that is loaded from it, whatever its length and its branches.

## Main definitions

* `Stats.Fits`: counts of 64 bits

## Main results

* `Coding.keeps_branchWith`, `Coding.keeps_prediction`, `Coding.keeps_stats`: records
* `Coding.keeps_trace`: traces
* `Reader.trace_of_spaced`: a text that consists of the tokens of a trace is loaded
  as this trace
* `Coding.written_read_back`: everything that is written is read back
-/

namespace BranchPrediction

/-- Counts are 64-bit numbers. -/
structure Stats.Fits (s : Stats) : Prop where
  branches : s.branches < 2 ^ 64
  takenBranches : s.takenBranches < 2 ^ 64
  directionMispredictions : s.directionMispredictions < 2 ^ 64
  targetMispredictions : s.targetMispredictions < 2 ^ 64

namespace Coding

theorem keeps_workload (w : Workload) : workload.Keeps w :=
  keeps_names _ (by decide) (by cases w <;> decide)

theorem keeps_addr (a : Addr) : addr.Keeps a where
  legible := Json.legible_ofNat a.val
  decode_encode := by
    change Addr.ofNat <$> (natBelow (2 ^ 32)).decode ((natBelow (2 ^ 32)).encode a.val) = _
    rw [(keeps_natBelow a.val_lt).decode_encode, Option.map_eq_map, Option.map_some, Addr.ofNat_val]

/-! ## Records -/

theorem keeps_branchWith {key : String} (distinct : [key, "target", "taken"].Nodup) (br : Branch) :
    (branchWith key).Keeps br := by
  have pc := keeps_addr br.pc
  have target := keeps_addr br.target
  have taken := keeps_bool br.taken
  constructor
  case legible =>
    refine Json.legible_ofMembers ?_
    simp only [List.forall_mem_cons]
    exact ⟨pc.legible, target.legible, taken.legible, nofun⟩
  case decode_encode =>
    have fields : ((branchWith key).encode br).fields? [key, "target", "taken"] =
        some [some (addr.encode br.pc), some (addr.encode br.target),
          some (bool.encode br.taken)] :=
      Json.fields?_ofMembers_self distinct
    change ((branchWith key).encode br).fields? _ >>= _ = _
    rw [fields]
    simp [pc.decode_encode, target.decode_encode, taken.decode_encode]

theorem keeps_branch (br : Branch) : branch.Keeps br :=
  keeps_branchWith (by decide) br

theorem keeps_request (br : Branch) : request.Keeps br :=
  keeps_branchWith (by decide) br

theorem keeps_prediction (p : Prediction) : prediction.Keeps p := by
  have taken := keeps_bool p.taken
  have address := keeps_addr p.address
  constructor
  case legible =>
    refine Json.legible_ofMembers ?_
    simp only [List.forall_mem_cons]
    exact ⟨taken.legible, address.legible, nofun⟩
  case decode_encode =>
    have fields : (prediction.encode p).fields? ["taken", "predicted_address"] =
        some [some (bool.encode p.taken), some (addr.encode p.address)] :=
      Json.fields?_ofMembers_self (by decide : ["taken", "predicted_address"].Nodup)
    change (prediction.encode p).fields? _ >>= _ = _
    rw [fields]
    simp [taken.decode_encode, address.decode_encode]

theorem keeps_stats {s : Stats} (fits : s.Fits) : stats.Keeps s := by
  have branches : count.Keeps _ := keeps_natBelow fits.branches
  have taken : count.Keeps _ := keeps_natBelow fits.takenBranches
  have direction : count.Keeps _ := keeps_natBelow fits.directionMispredictions
  have target : count.Keeps _ := keeps_natBelow fits.targetMispredictions
  constructor
  case legible =>
    refine Json.legible_ofMembers ?_
    simp only [List.forall_mem_cons]
    exact ⟨branches.legible, taken.legible, direction.legible, target.legible, nofun⟩
  case decode_encode =>
    have distinct : ["branches", "taken_branches", "direction_mispredictions",
        "target_mispredictions"].Nodup := by decide
    have fields : (stats.encode s).fields? ["branches", "taken_branches",
        "direction_mispredictions", "target_mispredictions"] =
        some [some (count.encode s.branches), some (count.encode s.takenBranches),
          some (count.encode s.directionMispredictions),
          some (count.encode s.targetMispredictions)] :=
      Json.fields?_ofMembers_self distinct
    change (stats.encode s).fields? _ >>= _ = _
    rw [fields]
    simp [branches.decode_encode, taken.decode_encode, direction.decode_encode,
      target.decode_encode]

/-- Traces of any length are kept. -/
theorem keeps_trace (trace : List Branch) : Coding.trace.Keeps trace :=
  keeps_list fun br _ => keeps_branch br

end Coding

/-! ## Files -/

/-- The text of a file is the text that the file was made of. -/
theorem FileTree.readText_of_find {t : FileTree} {path text : String}
    (found : t.find path = .ok (.ofText text)) : t.readText path = .ok text := by
  have utf8 : String.fromUTF8? text.toUTF8 = some text := by
    rw [String.toUTF8_eq_toByteArray]
    exact dif_pos text.isValidUTF8
  simp only [readText, found, ofText, utf8, bind, Except.bind, pure, Except.pure]

namespace Reader

/-- A text that consists of the tokens of a trace is loaded as this trace. -/
theorem trace_of_spaced {r : Reader} {path text : String} (written : r.text path = .ok text)
    {trace : List Branch} (spaced : Json.Spaced (Coding.trace.encode trace).tokens text.toList) :
    r.trace path = .ok trace := by
  have read := (Coding.keeps_trace trace).read?_of_spaced spaced
  have loaded : r.load path = .ok text := by rw [load, written]
  rw [Reader.trace, loaded]
  change traceOfJson text = _
  rw [traceOfJson, read]

/-- A trace that was written to a file of a tree is loaded from it. -/
theorem trace_ofTree {t : FileTree} {path : String} {trace : List Branch}
    (found : t.find path = .ok (.ofText (Coding.trace.write trace))) :
    (ofTree t).trace path = .ok trace :=
  trace_of_spaced (FileTree.readText_of_find found) (Json.spaced_render _)

end Reader

/-- **What is written is read back.** A file that holds the compact text of a trace is
loaded as this trace, for traces of any length and any branches, and so is the file that
a path leads to in a tree. Of branches, predictions, requests, addresses and choices every
value is read back from its compact text, and of counts every value of 64 bits. -/
theorem Coding.written_read_back :
    (∀ (r : Reader) (path : String) (trace : List Branch),
      r.text path = .ok (Coding.trace.write trace) → r.trace path = .ok trace) ∧
    (∀ (t : FileTree) (path : String) (trace : List Branch),
      t.find path = .ok (.ofText (Coding.trace.write trace)) →
        (Reader.ofTree t).trace path = .ok trace) ∧
    (∀ br, branch.read? (branch.write br) = some br) ∧
    (∀ br, request.read? (request.write br) = some br) ∧
    (∀ p, prediction.read? (prediction.write p) = some p) ∧
    (∀ s : Stats, s.Fits → stats.read? (stats.write s) = some s) ∧
    (∀ a, addr.read? (addr.write a) = some a) ∧
    (∀ w, workload.read? (workload.write w) = some w) ∧
    (∀ k, predictorKind.read? (predictorKind.write k) = some k) ∧
    (∀ k, targetCacheKind.read? (targetCacheKind.write k) = some k) ∧
    (∀ o, shiftOrder.read? (shiftOrder.write o) = some o) := by
  refine ⟨fun r path trace written => ?_, fun t path trace => Reader.trace_ofTree, ?_⟩
  · exact Reader.trace_of_spaced written (Json.spaced_render _)
  · exact ⟨fun br => (keeps_branch br).read?_write, fun br => (keeps_request br).read?_write,
      fun p => (keeps_prediction p).read?_write, fun _ fits => (keeps_stats fits).read?_write,
      fun a => (keeps_addr a).read?_write, fun w => (keeps_workload w).read?_write,
      fun k => (keeps_predictorKind k).read?_write,
      fun k => (keeps_targetCacheKind k).read?_write, fun o => (keeps_shiftOrder o).read?_write⟩

/-- A single file. -/
def Reader.ofFile (name text : String) : Reader :=
  ⟨fun path => if path = name then .ok text else .error .notFound⟩

theorem Reader.text_ofFile (name text : String) : (ofFile name text).text name = .ok text :=
  if_pos rfl

/-- Branches at both ends of memory. -/
def Coding.farthest : List Branch :=
  [⟨.ofNat 0, .ofNat (2 ^ 32 - 1), true⟩, ⟨.ofNat (2 ^ 32 - 1), .ofNat 0, false⟩]

/-- Counts as large as they can be written. -/
def Stats.largest : Stats :=
  ⟨2 ^ 64 - 1, 2 ^ 64 - 1, 2 ^ 64 - 1, 2 ^ 64 - 1⟩

/-- A directory with one file. -/
def FileTree.single (text : String) : FileTree :=
  dir [("t", ofText text)]

theorem FileTree.find_single (text : String) : (single text).find "t" = .ok (.ofText text) := by
  -- the path is a single name
  have names : names "t" = ["t"] := by
    rw [FileTree.names, String.splitOn, if_neg (by decide), String.splitOnAux,
      if_neg (by decide), if_neg (by decide), String.splitOnAux, if_pos (by decide)]
    decide +kernel
  have plain : "t".contains '\x00' = false := by simp
  have relative : "t".startsWith "/" = false := by decide +kernel
  rw [find, plain, relative, names]
  rfl

theorem Coding.written_read_back_farthest :
    (Reader.ofFile "trace.json" (trace.write farthest)).text "trace.json" =
        .ok (trace.write farthest) ∧
      (Reader.ofFile "trace.json" (trace.write farthest)).trace "trace.json" = .ok farthest ∧
      (FileTree.single (trace.write farthest)).find "t" = .ok (.ofText (trace.write farthest)) ∧
      (Reader.ofTree (.single (trace.write farthest))).trace "t" = .ok farthest ∧
      Stats.largest.Fits ∧ stats.read? (stats.write .largest) = some .largest := by
  have held := Reader.text_ofFile "trace.json" (trace.write farthest)
  have found := FileTree.find_single (trace.write farthest)
  have fits : Stats.largest.Fits := by constructor <;> decide
  obtain ⟨files, trees, _, _, _, counts, _⟩ := written_read_back
  exact ⟨held, files _ _ _ held, found, trees _ _ _ found, fits, counts _ fits⟩

end BranchPrediction
