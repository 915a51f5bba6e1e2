import BranchPrediction.Proofs.Range.Predictors
/-!
# Operations that may fail

The operations of a predictor are total: past its end a table reads as fresh, and
numbers may be as large as they like. Hardware is less generous. It stops when an
index leaves a table, when a number leaves its word, or when a word is shifted by
its width or more.

This module carries out every operation on such hardware; `none` means that it has
stopped. Each of these operations is written out access by access, and agrees with
the total one as long as it goes on. The second half of that has no conditions other
than that the state is sound: a sound predictor goes on, whatever it is asked or
told, and so it never relies on what total operations do past the end of a table.

## Main definitions

* `Table.get?`, `Table.modify?`: access to a cell that has to be there
* `int32?`, `Counter.stored?`, `History.bit?`, `Weight.step?`: numbers that have to fit
* `Row.output?`, `Row.train?`: a row of weights
* `Bimodal.predict?`, `Bimodal.update?`, and the same for the other predictors and the
  target buffers

## Main results

* `Table.get?_eq`, `Table.modify?_eq`: accesses within a table succeed
* `Row.Within.output?_eq`, `Row.Within.train?_eq`: no sum of a row leaves its word
* `Bimodal.Sound.predict?_eq`, `Bimodal.Sound.update?_eq`, and the same for the others
-/

namespace BranchPrediction

/-! ## Cells -/

namespace Table

variable {α : Type} {t : Table α} {i : Nat}

/-- The content of a cell that has to be there. -/
def get? (t : Table α) (i : Nat) : Option α :=
  t.cells[i]?

/-- Replaces the content of a cell that has to be there, by an operation that may fail. -/
def modify? (t : Table α) (i : Nat) (f : α → Option α) : Option (Table α) := do
  let a ← f (← t.get? i)
  return { t with cells := t.cells.setIfInBounds i a }

theorem get?_eq (inside : i < t.size) : t.get? i = some (t.get i) := by
  rw [get?, get, Array.getElem?_eq_getElem inside, Array.getD_eq_getD_getElem?,
    Array.getElem?_eq_getElem inside, Option.getD_some]

theorem modify?_eq (inside : i < t.size) {f : α → Option α} {g : α → α}
    (succeeds : f (t.get i) = some (g (t.get i))) : t.modify? i f = some (t.modify i g) := by
  have held : t.cells[i]? = some (t.get i) := get?_eq inside
  -- the array is written once here, and changed in place there
  have cells : t.cells.setIfInBounds i (g (t.get i)) = t.cells.modify i g := by
    refine Array.ext_getElem? fun j => ?_
    rw [Array.getElem?_setIfInBounds, Array.getElem?_modify]
    split
    · next same =>
      subst same
      rw [held]
      exact if_pos inside
    · rfl
  rw [modify?, get?_eq inside, modify, ← cells]
  change f (t.get i) >>= _ = _
  rw [succeeds]
  rfl

end Table

/-! ## Numbers -/

/-- A signed number that has to fit into 32 bits. -/
def int32? (x : Int) : Option Int :=
  if -2 ^ 31 ≤ x ∧ x < 2 ^ 31 then some x else none

theorem int32?_eq {x : Int} (fits : x.natAbs < 2 ^ 31) : int32? x = some x :=
  if_pos (by omega)

/-- A counter that has to fit into a byte. -/
def Counter.stored? (c : Counter) : Option Counter :=
  if c.value < 2 ^ 8 then some c else none

/-- One step of a counter. -/
def Counter.train? (c : Counter) (taken : Bool) : Option Counter :=
  (c.train taken).stored?

theorem Counter.Within.stored?_eq {bits : Nat} {c : Counter} (within : c.Within bits)
    (narrow : bits ≤ maxCounterBits) : c.stored? = some c := by
  have range : 2 ^ bits ≤ 2 ^ 8 := Nat.pow_le_pow_right (by decide) narrow
  have positive := Nat.two_pow_pos bits
  have value := within.value_le
  rw [within.max_eq] at value
  exact if_pos (by omega)

theorem Counter.Within.train?_eq {bits : Nat} {c : Counter} (within : c.Within bits)
    (narrow : bits ≤ maxCounterBits) (taken : Bool) : c.train? taken = some (c.train taken) :=
  (within.train taken).stored?_eq narrow

/-- An outcome of a history, which is a word of 64 bits. -/
def History.bit? (h : History) (i : Nat) : Option Bool :=
  if i < 64 then some (h.bit i) else none

/-- The cell that an address selects under a history. To fold a history, its word is shifted
by less than the length of the history. -/
def IndexScheme.index? (s : IndexScheme) (pc : Addr) (h : History) (n : Nat) : Option Nat :=
  if s = folded ∧ 64 < h.len then none else some (s.index pc h n)

theorem IndexScheme.index?_eq (s : IndexScheme) (pc : Addr) {h : History} (short : h.len ≤ 64)
    (n : Nat) : s.index? pc h n = some (s.index pc h n) :=
  if_neg fun long => Nat.not_lt.mpr short long.2

/-! ## Rows of weights -/

/-- One step of a weight. The ends of its range are powers of two in 32 bits. -/
def Weight.step? (w : Weight) (up : Bool) : Option Weight :=
  if 1 ≤ w.bits ∧ w.bits < 32 then some (w.step up) else none

namespace Row

/-- The bias with the contributions of the first history bits, each sum in 32 bits. -/
def partialSum? (r : Row) (h : History) : Nat → Option Int
  | 0 => some r.bias.value
  | n + 1 => do
    let sum ← r.partialSum? h n
    let w ← r.weights[n]?
    int32? (if ← h.bit? n then sum + w.value else sum - w.value)

/-- The bias with the contributions of all history bits. -/
def output? (r : Row) (h : History) : Option Int :=
  r.partialSum? h r.weights.size

/-- One step of the bias and of every weight. -/
def train? (r : Row) (h : History) (taken : Bool) : Option Row := do
  let bias ← r.bias.step? taken
  let weights ← r.weights.zipIdx.mapM fun (w, i) => do w.step? ((← h.bit? i) == taken)
  return ⟨bias, weights⟩

end Row

/-- An array whose items all succeed. -/
theorem mapM_eq_some_map {α β : Type} {f : α → Option β} {g : α → β} {as : Array α}
    (succeeds : ∀ a ∈ as, f a = some (g a)) : as.mapM f = some (as.map g) := by
  have items (l : List α) (succeeds : ∀ a ∈ l, f a = some (g a)) : l.mapM f = some (l.map g) := by
    induction l with
    | nil => rfl
    | cons a l ih =>
      obtain ⟨first, others⟩ := List.forall_mem_cons.mp succeeds
      rw [List.mapM_cons, first, ih others]
      rfl
  obtain ⟨l⟩ := as
  rw [List.mapM_toArray, items l fun a member => succeeds a (List.mem_toArray.mpr member),
    List.map_toArray]
  rfl

theorem Weight.Within.step?_eq {bits : Nat} {w : Weight} (within : w.Within bits)
    (wide : 2 ≤ bits) (fits : bits ≤ maxWeightBits) (up : Bool) :
    w.step? up = some (w.step up) := by
  have narrow : bits < 32 := Nat.lt_of_le_of_lt fits (by decide)
  rw [Weight.step?, within.bits_eq, if_pos ⟨by omega, narrow⟩]

namespace Row.Within

variable {n bits : Nat} {r : Row}

/-- No partial sum leaves its word. -/
theorem partialSum?_eq (within : r.Within n bits) (short : n ≤ 64) (h : History)
    (small : ∀ k ≤ n, (r.partialSum h k).natAbs < 2 ^ 31) {k : Nat} (terms : k ≤ n) :
    r.partialSum? h k = some (r.partialSum h k) := by
  induction k with
  | zero => rfl
  | succ k ih =>
    have inside : k < r.weights.size := within.size_eq ▸ terms
    have weight : r.weights[k]? = some r.weights[k] := Array.getElem?_eq_getElem inside
    have bit : h.bit? k = some (h.bit k) := if_pos (Nat.lt_of_lt_of_le terms short)
    have sum : r.partialSum h (k + 1) =
        if h.bit k then r.partialSum h k + r.weights[k].value
        else r.partialSum h k - r.weights[k].value := by
      rw [Row.partialSum, Row.term, Row.weight, dif_pos inside]
      split <;> rfl
    -- terms are added in the same order, so what has to fit is a partial sum again
    rw [Row.partialSum?, ih (Nat.le_of_succ_le terms), weight, bit]
    change int32? _ = _
    rw [← sum]
    exact int32?_eq (small _ terms)

theorem output?_eq (within : r.Within n bits) (short : n ≤ 64) (h : History)
    (small : ∀ k ≤ n, (r.partialSum h k).natAbs < 2 ^ 31) :
    r.output? h = some (r.output h) := by
  rw [Row.output?, Row.output, within.size_eq]
  exact within.partialSum?_eq short h small (Nat.le_refl n)

theorem train?_eq (within : r.Within n bits) (short : n ≤ 64) (wide : 2 ≤ bits)
    (fits : bits ≤ maxWeightBits) (h : History) (taken : Bool) :
    r.train? h taken = some (r.train h taken) := by
  have weights : (r.weights.zipIdx.mapM fun (w, i) => do w.step? ((← h.bit? i) == taken)) =
      some (r.weights.mapIdx fun i w => w.step (h.bit i == taken)) := by
    rw [Array.mapIdx_eq_zipIdx_map]
    -- a weight has the place of its bit, and there are 64 of them at most
    refine mapM_eq_some_map ?_
    rintro ⟨w, i⟩ member
    obtain ⟨inside, held⟩ := Array.mem_zipIdx' member
    have range : w.Within bits := within.weights w (held ▸ Array.getElem_mem inside)
    have bit : h.bit? i = some (h.bit i) :=
      if_pos (Nat.lt_of_lt_of_le (within.size_eq ▸ inside) short)
    change (h.bit? i >>= fun b => w.step? (b == taken)) = _
    rw [bit]
    exact range.step?_eq wide fits _
  rw [Row.train?, within.bias.step?_eq wide fits, weights]
  rfl

end Row.Within

/-! ## Counters selected by address -/

/-- A table of counters trains the counter of any of its cells. -/
theorem Table.All.modify?_train {bits : Nat} {t : Table Counter}
    (counters : t.All (Counter.Within bits)) (narrow : bits ≤ maxCounterBits) {i : Nat}
    (inside : i < t.size) (taken : Bool) :
    t.modify? i (·.train? taken) = some (t.modify i (·.train taken)) :=
  Table.modify?_eq inside ((counters i).train?_eq narrow taken)

namespace Bimodal

def predict? (p : Bimodal) (pc : Addr) : Option Bool := do
  return (← p.counters.get? (p.index pc)).predictsTaken

def update? (p : Bimodal) (br : Branch) : Option Bimodal := do
  return { p with counters := ← p.counters.modify? (p.index br.pc) (·.train? br.taken) }

variable {c : Config} {p : Bimodal}

theorem Sound.predict?_eq (sound : p.Sound c) (pc : Addr) :
    p.predict? pc = some (p.predict pc) := by
  have selected : p.counters.get? (p.index pc) = some (p.counter pc) :=
    Table.get?_eq (sound.index_lt pc)
  rw [predict?, selected]
  rfl

theorem Sound.update?_eq (valid : c.Valid) (sound : p.Sound c) (br : Branch) :
    p.update? br = some (p.update br) := by
  have inside : p.index br.pc < p.counters.size := sound.index_lt br.pc
  rw [update?, sound.counters.modify?_train valid.counterBits_le inside]
  rfl

end Bimodal

/-! ## Counters selected by address and global history -/

namespace GShare

def predict? (p : GShare) (pc : Addr) : Option Bool := do
  let i ← p.scheme.index? pc p.history p.indexBits
  return (← p.counters.get? i).predictsTaken

def update? (p : GShare) (br : Branch) : Option GShare := do
  let i ← p.scheme.index? br.pc (p.trainingHistory br) p.indexBits
  return { p with
    history := p.history.shifted br.taken
    counters := ← p.counters.modify? i (·.train? br.taken) }

variable {c : Config} {p : GShare}

theorem Sound.len_le (valid : c.Valid) (sound : p.Sound c) : p.history.len ≤ 64 :=
  sound.history.len_eq ▸ valid.historyLength_le_register

theorem Sound.predict?_eq (valid : c.Valid) (sound : p.Sound c) (pc : Addr) :
    p.predict? pc = some (p.predict pc) := by
  have index : p.scheme.index? pc p.history p.indexBits = some (p.index pc) :=
    IndexScheme.index?_eq _ _ (sound.len_le valid) _
  have selected : p.counters.get? (p.index pc) = some (p.counterAt (p.index pc)) :=
    Table.get?_eq (sound.index_lt pc _)
  rw [predict?, index, Option.bind_eq_bind, Option.bind_some, selected]
  rfl

theorem Sound.update?_eq (valid : c.Valid) (sound : p.Sound c) (br : Branch) :
    p.update? br = some (p.update br) := by
  -- the history is as long before the outcome enters as after that
  have short : (p.trainingHistory br).len ≤ 64 := by
    unfold trainingHistory
    split <;> exact sound.len_le valid
  have index : p.scheme.index? br.pc (p.trainingHistory br) p.indexBits =
      some (p.trainingIndex br) := IndexScheme.index?_eq _ _ short _
  rw [update?, index, Option.bind_eq_bind, Option.bind_some,
    sound.counters.modify?_train valid.counterBits_le (sound.trainingIndex_lt br)]
  rfl

end GShare

/-! ## Target buffers -/

namespace TargetBuffer

def lookup? (b : TargetBuffer) (pc : Addr) : Option (Option Addr) := do
  let e ← b.slots.get? (pc.wordIndex b.indexBits)
  return if e.valid ∧ e.tag = pc.tag b.indexBits then some e.target else none

def predict? (b : TargetBuffer) (pc : Addr) : Option Prediction := do
  return .ofTarget? pc (← b.lookup? pc)

def update? (b : TargetBuffer) (br : Branch) : Option TargetBuffer := do
  if br.taken then
    return { b with
      slots := ← b.slots.modify? (br.pc.wordIndex b.indexBits) fun _ =>
        some ⟨true, br.pc.tag b.indexBits, br.target⟩ }
  else return b

variable {b : TargetBuffer}

theorem Sound.lookup?_eq (sound : b.Sound) (pc : Addr) : b.lookup? pc = some (b.lookup pc) := by
  rw [lookup?, Table.get?_eq (sound.slot_lt pc)]
  rfl

theorem Sound.predict?_eq (sound : b.Sound) (pc : Addr) :
    b.predict? pc = some (b.predict pc) := by
  rw [predict?, sound.lookup?_eq]
  rfl

theorem Sound.update?_eq (sound : b.Sound) (br : Branch) : b.update? br = some (b.update br) := by
  have stores (slot : TargetEntry) :
      b.slots.modify? (br.pc.wordIndex b.indexBits) (fun _ => some slot) =
        some (b.slots.modify (br.pc.wordIndex b.indexBits) fun _ => slot) :=
    Table.modify?_eq (sound.slot_lt br.pc) rfl
  rw [update?, TargetBuffer.update]
  split
  · rw [stores]
    rfl
  · rfl

end TargetBuffer

/-- What a resolved branch does to its slot. -/
def CounterEntry.update? (e : CounterEntry) (tag : Nat) (br : Branch) : Option CounterEntry := do
  let next := e.update tag br
  return { next with counter := ← next.counter.stored? }

theorem CounterEntry.update?_eq {e : CounterEntry} (within : e.counter.Within slotCounterBits)
    (tag : Nat) (br : Branch) : e.update? tag br = some (e.update tag br) := by
  have stored : (e.update tag br).counter.stored? = some (e.update tag br).counter :=
    (within_update tag br within).stored?_eq (by decide)
  simp [CounterEntry.update?, stored]

namespace CounterBuffer

def lookup? (b : CounterBuffer) (pc : Addr) : Option (Option CounterEntry) := do
  let e ← b.slots.get? (pc.wordIndex b.indexBits)
  return if e.hits (pc.tag b.indexBits) then some e else none

def predict? (b : CounterBuffer) (pc : Addr) : Option Prediction := do
  let e ← b.lookup? pc
  return .ofTarget? pc ((e.filter fun e => e.counter.predictsTaken).map (·.target))

def update? (b : CounterBuffer) (br : Branch) : Option CounterBuffer := do
  let slots ← b.slots.modify? (br.pc.wordIndex b.indexBits) fun e =>
    e.update? (br.pc.tag b.indexBits) br
  return { b with slots }

variable {b : CounterBuffer}

theorem Sound.lookup?_eq (sound : b.Sound) (pc : Addr) : b.lookup? pc = some (b.lookup pc) := by
  rw [lookup?, Table.get?_eq (sound.slot_lt pc)]
  rfl

theorem Sound.predict?_eq (sound : b.Sound) (pc : Addr) :
    b.predict? pc = some (b.predict pc) := by
  rw [predict?, sound.lookup?_eq]
  rfl

theorem Sound.update?_eq (sound : b.Sound) (br : Branch) : b.update? br = some (b.update br) := by
  have slot := CounterEntry.update?_eq (sound.counters (br.pc.wordIndex b.indexBits))
    (br.pc.tag b.indexBits) br
  rw [update?, Table.modify?_eq (sound.slot_lt br.pc)
    (g := fun e => e.update (br.pc.tag b.indexBits) br) slot]
  rfl

end CounterBuffer

/-! ## Counters gated by a private target buffer -/

namespace GatedGShare

def predict? (p : GatedGShare) (pc : Addr) : Option Bool := do
  if ← p.gshare.predict? pc then return (← p.buffer.lookup? pc).isSome else return false

def predictTarget? (p : GatedGShare) (pc : Addr) : Option (Option Addr) :=
  p.buffer.lookup? pc

def update? (p : GatedGShare) (br : Branch) : Option GatedGShare := do
  return { gshare := ← p.gshare.update? br, buffer := ← p.buffer.update? br }

variable {c : Config} {p : GatedGShare}

theorem Sound.predict?_eq (valid : c.Valid) (sound : p.Sound c) (pc : Addr) :
    p.predict? pc = some (p.predict pc) := by
  rw [predict?, sound.gshare.predict?_eq valid, sound.buffer.lookup?_eq, predict]
  cases p.gshare.predict pc <;> rfl

theorem Sound.predictTarget?_eq (sound : p.Sound c) (pc : Addr) :
    p.predictTarget? pc = some (p.predictTarget pc) :=
  sound.buffer.lookup?_eq pc

theorem Sound.update?_eq (valid : c.Valid) (sound : p.Sound c) (br : Branch) :
    p.update? br = some (p.update br) := by
  rw [update?, sound.gshare.update?_eq valid, sound.buffer.update?_eq]
  rfl

end GatedGShare

/-! ## Counters selected by local history -/

namespace TwoLevel

/-- The counter that a history selects. -/
def counterOf? (p : TwoLevel) (h : History) : Option Counter :=
  p.counters.get? h.bits

def predict? (p : TwoLevel) (pc : Addr) : Option Bool := do
  let h ← p.histories.get? (p.slot pc)
  return (← p.counterOf? h).predictsTaken

def update? (p : TwoLevel) (br : Branch) : Option TwoLevel := do
  let h ← p.histories.get? (p.slot br.pc)
  return { p with
    counters := ← p.counters.modify? h.bits (·.train? br.taken)
    histories := ← p.histories.modify? (p.slot br.pc) fun h => some (h.shifted br.taken) }

variable {c : Config} {p : TwoLevel}

theorem Sound.localHistory?_eq (sound : p.Sound c) (pc : Addr) :
    p.histories.get? (p.slot pc) = some (p.localHistory pc) :=
  Table.get?_eq (sound.slot_lt pc)

/-- Every history of the right length selects a counter, held or not. -/
theorem Sound.counterOf?_eq (sound : p.Sound c) {h : History} (within : h.Within c.historyLength) :
    p.counterOf? h = some (p.counterOf h) :=
  Table.get?_eq (sound.bits_lt h within)

theorem Sound.predict?_eq (sound : p.Sound c) (pc : Addr) :
    p.predict? pc = some (p.predict pc) := by
  have selected : p.counterOf? (p.localHistory pc) = some (p.counterOf (p.localHistory pc)) :=
    sound.counterOf?_eq (sound.histories _)
  rw [predict?, sound.localHistory?_eq, Option.bind_eq_bind, Option.bind_some, selected]
  rfl

theorem Sound.update?_eq (valid : c.Valid) (sound : p.Sound c) (br : Branch) :
    p.update? br = some (p.update br) := by
  have shifts : p.histories.modify? (p.slot br.pc) (fun h => some (h.shifted br.taken)) =
      some (p.histories.modify (p.slot br.pc) (·.shifted br.taken)) :=
    Table.modify?_eq (sound.slot_lt br.pc) rfl
  rw [update?, sound.localHistory?_eq, Option.bind_eq_bind, Option.bind_some,
    sound.counters.modify?_train valid.counterBits_le (sound.localHistory_lt br.pc), shifts]
  rfl

end TwoLevel

/-! ## Rows selected by address and global history -/

namespace Perceptron

/-- The index of the row that `pc` selects, and its output. -/
def output? (p : Perceptron) (pc : Addr) : Option (Nat × Int) := do
  let i ← p.scheme.index? pc p.history p.indexBits
  return (i, ← (← p.rows.get? i).output? p.history)

def predict? (p : Perceptron) (pc : Addr) : Option Bool := do
  return 0 ≤ (← p.output? pc).2

/-- The magnitude of the output is taken in 32 bits as well. -/
def update? (p : Perceptron) (br : Branch) : Option Perceptron := do
  let (i, sum) ← p.output? br.pc
  let magnitude ← int32? sum.natAbs
  let history := p.history.shifted br.taken
  if decide (0 ≤ sum) != br.taken || magnitude ≤ p.threshold then
    return { p with history, rows := ← p.rows.modify? i (·.train? p.history br.taken) }
  else return { p with history }

variable {c : Config} {p : Perceptron}

theorem Sound.output?_eq (valid : c.Valid) (sound : p.Sound c) (pc : Addr) :
    p.output? pc = some (p.index pc, p.output pc) := by
  have short : p.history.len ≤ 64 := sound.history.len_eq ▸ valid.historyLength_le_register
  have index : p.scheme.index? pc p.history p.indexBits = some (p.index pc) :=
    IndexScheme.index?_eq _ _ short _
  have selected : p.rows.get? (p.index pc) = some (p.row pc) :=
    Table.get?_eq (sound.index_lt pc _)
  have within : (p.row pc).Within c.historyLength c.weightBits := sound.rows _
  have output : (p.row pc).output? p.history = some (p.output pc) :=
    within.output?_eq valid.historyLength_le_register _ fun k terms =>
      sound.natAbs_partialSum_lt valid _ _ (within.size_eq.symm ▸ terms)
  rw [output?, index, Option.bind_eq_bind, Option.bind_some, selected, Option.bind_eq_bind,
    Option.bind_some, output]
  rfl

theorem Sound.predict?_eq (valid : c.Valid) (sound : p.Sound c) (pc : Addr) :
    p.predict? pc = some (p.predict pc) := by
  rw [predict?, sound.output?_eq valid]
  rfl

theorem Sound.update?_eq (valid : c.Valid) (sound : p.Sound c) (br : Branch) :
    p.update? br = some (p.update br) := by
  have within : (p.row br.pc).Within c.historyLength c.weightBits := sound.rows _
  -- sums are bounded by their magnitude, so the magnitude fits as well
  have magnitude : int32? (p.output br.pc).natAbs = some ((p.output br.pc).natAbs : Int) :=
    int32?_eq (sound.natAbs_partialSum_lt valid _ _ (Nat.le_refl _))
  have trains : p.rows.modify? (p.index br.pc) (·.train? p.history br.taken) =
      some (p.rows.modify (p.index br.pc) (·.train p.history br.taken)) :=
    Table.modify?_eq (sound.index_lt br.pc _) (within.train?_eq valid.historyLength_le_register
      valid.two_le_weightBits valid.weightBits_le p.history br.taken)
  have decides : (decide (0 ≤ p.output br.pc) != br.taken ||
      decide (((p.output br.pc).natAbs : Int) ≤ p.threshold)) = p.trains br := by
    simp only [Perceptron.trains, Int.ofNat_le]
  rw [update?, sound.output?_eq valid, Option.bind_eq_bind, Option.bind_some]
  dsimp only
  rw [magnitude, Option.bind_eq_bind, Option.bind_some, decides, trains, Perceptron.update]
  cases p.trains br <;> rfl

end Perceptron

end BranchPrediction
