import BranchPrediction.Counter
import BranchPrediction.Direction.Perceptron
/-!
# The ranges of stored values

What a cell of each table may hold: a counter below its bound, a history that
fits its length, a weight that fits its width, and a row with the right number
of weights. A fresh cell is in range, and one step of training keeps it there.

The output of a row is a sum, and the sum is taken term by term. Every partial
sum is bounded by the number of its terms, which is what makes a 32-bit
accumulator wide enough.

## Main definitions

* `Table.All`: a property of every cell
* `Counter.Within`, `History.Within`, `Weight.Within`, `Row.Within`: the ranges
* `clampedSum`: a sum that is clamped after each addition

## Main results

* `Weight.value_add`: an addition is exact up to the clamp
* `Row.Within.partialSum_mem`: the bounds of a partial sum
-/

namespace BranchPrediction

/-! ## Tables -/

/-- Every cell has a property, the fresh ones past the end included. -/
def Table.All {α : Type} (P : α → Prop) (t : Table α) : Prop :=
  ∀ i, P (t.get i)

theorem Table.all_fresh {α : Type} {P : α → Prop} (size : Nat) {fill : α} (holds : P fill) :
    (Table.fresh size fill).All P := by
  intro i
  rw [Table.get_fresh]
  exact holds

/-- A change that keeps a property in one cell keeps it in the table, also when
the changed cell lies past the end. -/
theorem Table.All.modify {α : Type} {P : α → Prop} {t : Table α} (all : t.All P) (i : Nat)
    {f : α → α} (keeps : ∀ a, P a → P (f a)) : (t.modify i f).All P := by
  intro j
  by_cases inside : i < t.size
  · rw [Table.get_modify t i j f inside]
    split
    · exact keeps _ (all j)
    · exact all j
  · have unchanged : (t.modify i f).get j = t.get j := by
      simp only [Table.modify, Table.get, Array.getD_eq_getD_getElem?, Array.getElem?_modify]
      split
      · next same =>
        subst same
        rw [Array.getElem?_eq_none (Nat.le_of_not_lt inside)]
        rfl
      · rfl
    rw [unchanged]
    exact all j

/-! ## Counters -/

/-- A counter of `bits` bits. -/
structure Counter.Within (bits : Nat) (c : Counter) : Prop where
  max_eq : c.max = 2 ^ bits - 1
  value_le : c.value ≤ c.max

theorem Counter.within_ofBits (bits value : Nat) : (Counter.ofBits bits value).Within bits :=
  ⟨rfl, Counter.value_ofBits_le bits value⟩

theorem Counter.Within.train {bits : Nat} {c : Counter} (within : c.Within bits) (taken : Bool) :
    (c.train taken).Within bits :=
  ⟨(Counter.max_train c taken).trans within.max_eq, Counter.value_train_le within.value_le taken⟩

/-! ## Histories -/

/-- A register of `len` outcomes. -/
structure History.Within (len : Nat) (h : History) : Prop where
  len_eq : h.len = len
  bits_lt : h.bits < 2 ^ len

theorem History.within_ofLength (len : Nat) : (History.ofLength len).Within len :=
  ⟨rfl, Nat.two_pow_pos len⟩

theorem History.Within.shifted {len : Nat} {h : History} (within : h.Within len)
    (fits : len ≤ 64) (taken : Bool) : (h.shifted taken).Within len := by
  refine ⟨within.len_eq, ?_⟩
  have bound := History.bits_shifted_lt h taken
  rwa [within.len_eq, Nat.min_eq_left fits] at bound

/-! ## Weights -/

/-- A weight of `bits` bits. -/
structure Weight.Within (bits : Nat) (w : Weight) : Prop where
  bits_eq : w.bits = bits
  le_value : -2 ^ (bits - 1) ≤ w.value
  value_le : w.value ≤ 2 ^ (bits - 1) - 1

theorem clamp_mem {low high : Int} (ordered : low ≤ high) (x : Int) :
    low ≤ clamp low high x ∧ clamp low high x ≤ high := by
  unfold clamp
  omega

/-- A cell of 16 bits holds every weight of at most that width. -/
theorem two_pow_pred_le {bits : Nat} (fits : bits ≤ maxWeightBits) :
    (2 : Int) ^ (bits - 1) ≤ 2 ^ 15 := by
  have narrow : bits - 1 ≤ 15 := Nat.sub_le_of_le_add fits
  exact_mod_cast Nat.pow_le_pow_right (by decide) narrow

theorem two_pow_pred_pos (bits : Nat) : (0 : Int) < 2 ^ (bits - 1) := by
  exact_mod_cast Nat.two_pow_pos (bits - 1)

/-- The range of a weight that fits its cell is an interval of 16-bit numbers. -/
theorem Weight.min_le_max (w : Weight) : w.min ≤ w.max := by
  have := two_pow_pred_pos w.bits
  unfold Weight.min Weight.max
  omega

/-- Nothing is lost when a clamped sum is stored. -/
theorem Weight.value_add {w : Weight} (fits : w.bits ≤ maxWeightBits) (delta : Int) :
    (w.add delta).value = clamp w.min w.max (saturate (w.value + delta)) := by
  have narrow := two_pow_pred_le fits
  have between := clamp_mem w.min_le_max (saturate (w.value + delta))
  have least : -2 ^ 15 ≤ w.min := by
    unfold Weight.min
    omega
  have greatest : w.max < 2 ^ 15 := by
    unfold Weight.max
    omega
  exact Int16.toInt_ofInt_of_le (by omega) (by omega)

/-- A clamp to 32 bits is not felt by a narrower clamp. -/
theorem clamp_saturate {low high : Int} (least : -2 ^ 31 ≤ low) (greatest : high ≤ 2 ^ 31 - 1)
    (x : Int) : clamp low high (saturate x) = clamp low high x := by
  unfold saturate clamp
  omega

/-- The range of a weight that fits its cell lies within that of the adder. -/
theorem Weight.clamp_range_saturate {w : Weight} (fits : w.bits ≤ maxWeightBits) (x : Int) :
    clamp w.min w.max (saturate x) = clamp w.min w.max x := by
  have narrow := two_pow_pred_le fits
  have least : -2 ^ 31 ≤ w.min := by
    unfold Weight.min
    omega
  have greatest : w.max ≤ 2 ^ 31 - 1 := by
    unfold Weight.max
    omega
  exact clamp_saturate least greatest x

/-- The sum of a start and some numbers, clamped after each addition. -/
def clampedSum (low high start : Int) (deltas : List Int) : Int :=
  deltas.foldl (fun x delta => clamp low high (x + delta)) start

@[simp]
theorem clampedSum_cons (low high start delta : Int) (deltas : List Int) :
    clampedSum low high start (delta :: deltas) =
      clampedSum low high (clamp low high (start + delta)) deltas :=
  rfl

theorem Weight.within_zero (bits : Nat) : (Weight.zero bits).Within bits := by
  have := two_pow_pred_pos bits
  refine ⟨rfl, ?_, ?_⟩
  · rw [Weight.value_zero]
    omega
  · rw [Weight.value_zero]
    omega

theorem Weight.Within.add {bits : Nat} {w : Weight} (within : w.Within bits)
    (fits : bits ≤ maxWeightBits) (delta : Int) : (w.add delta).Within bits := by
  obtain ⟨rfl, -, -⟩ := within
  have between := clamp_mem w.min_le_max (saturate (w.value + delta))
  rw [← Weight.value_add fits] at between
  exact ⟨Weight.bits_add w delta, between.1, between.2⟩

theorem Weight.Within.step {bits : Nat} {w : Weight} (within : w.Within bits)
    (fits : bits ≤ maxWeightBits) (up : Bool) : (w.step up).Within bits :=
  within.add fits _

/-! ## Rows -/

/-- A row for histories of `n` bits, with weights of `bits` bits. -/
structure Row.Within (n bits : Nat) (r : Row) : Prop where
  size_eq : r.weights.size = n
  bias : r.bias.Within bits
  weights : ∀ w ∈ r.weights, w.Within bits

theorem Row.within_zero (n bits : Nat) : (Row.zero n bits).Within n bits := by
  refine ⟨Array.size_replicate, Weight.within_zero bits, ?_⟩
  intro w member
  rw [(Array.mem_replicate.mp member).2]
  exact Weight.within_zero bits

theorem Row.Within.train {n bits : Nat} {r : Row} (within : r.Within n bits)
    (fits : bits ≤ maxWeightBits) (h : History) (taken : Bool) :
    (r.train h taken).Within n bits := by
  refine ⟨Array.size_mapIdx.trans within.size_eq, within.bias.step fits taken, ?_⟩
  intro w member
  obtain ⟨i, inside, rfl⟩ := Array.mem_mapIdx.mp member
  exact (within.weights _ (Array.getElem_mem inside)).step fits _

theorem Row.Within.weight_mem {n bits : Nat} {r : Row} (within : r.Within n bits) (i : Nat) :
    -2 ^ (bits - 1) ≤ r.weight i ∧ r.weight i ≤ 2 ^ (bits - 1) - 1 := by
  have := two_pow_pred_pos bits
  unfold Row.weight
  split
  · next inside =>
    have range := within.weights _ (Array.getElem_mem inside)
    exact ⟨range.le_value, range.value_le⟩
  · omega

/-- A partial sum is bounded by the number of its terms. -/
theorem Row.Within.partialSum_mem {n bits : Nat} {r : Row} (within : r.Within n bits)
    (h : History) (k : Nat) :
    -((k + 1) * 2 ^ (bits - 1)) ≤ r.partialSum h k ∧
      r.partialSum h k ≤ (k + 1) * 2 ^ (bits - 1) - 1 := by
  have unit := two_pow_pred_pos bits
  induction k with
  | zero =>
    have one : (((0 : Nat) : Int) + 1) * 2 ^ (bits - 1) = 2 ^ (bits - 1) := Int.one_mul _
    rw [one, Row.partialSum]
    exact ⟨within.bias.le_value, within.bias.value_le⟩
  | succ k ih =>
    have range := within.weight_mem k
    have term : -2 ^ (bits - 1) ≤ r.term h k ∧ r.term h k ≤ 2 ^ (bits - 1) := by
      unfold Row.term
      split <;> omega
    have grown : ((k + 1 : Nat) + 1 : Int) * 2 ^ (bits - 1) =
        (k + 1) * 2 ^ (bits - 1) + 2 ^ (bits - 1) := by
      push_cast
      rw [Int.add_mul (k + 1), Int.one_mul]
    rw [grown, Row.partialSum]
    omega

end BranchPrediction
