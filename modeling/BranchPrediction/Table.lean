/-!
# Direct-mapped tables

A table is a row of cells that start out equal. Cells are read by index and
changed one at a time.

## Main definitions

* `Table`: the cells with the content of a fresh cell
* `Table.fresh`: a table of equal cells
* `Table.get`, `Table.modify`: access to one cell
-/

namespace BranchPrediction

/-- A row of cells. -/
structure Table (α : Type) where
  cells : Array α
  /-- The content of a fresh cell. -/
  fill : α

namespace Table

variable {α : Type}

/-- The table of `size` fresh cells. -/
def fresh (size : Nat) (fill : α) : Table α :=
  ⟨Array.replicate size fill, fill⟩

/-- The number of cells. -/
def size (t : Table α) : Nat :=
  t.cells.size

/-- The content of a cell; past the end there are only fresh cells. -/
def get (t : Table α) (i : Nat) : α :=
  t.cells.getD i t.fill

/-- Replaces the content `a` of a cell by `f a`. -/
def modify (t : Table α) (i : Nat) (f : α → α) : Table α :=
  { t with cells := t.cells.modify i f }

@[simp]
theorem size_fresh (size : Nat) (fill : α) : (fresh size fill).size = size :=
  Array.size_replicate

@[simp]
theorem size_modify (t : Table α) (i : Nat) (f : α → α) : (t.modify i f).size = t.size :=
  Array.size_modify

@[simp]
theorem get_fresh (size : Nat) (fill : α) (i : Nat) : (fresh size fill).get i = fill := by
  simp only [fresh, get, Array.getD_eq_getD_getElem?, Array.getElem?_replicate]
  split <;> rfl

/-- Changing a cell within the table shows in that cell and in no other. -/
theorem get_modify (t : Table α) (i j : Nat) (f : α → α) (h : i < t.size) :
    (t.modify i f).get j = if i = j then f (t.get j) else t.get j := by
  unfold size at h
  simp only [modify, get, Array.getD_eq_getD_getElem?, Array.getElem?_modify]
  by_cases same : i = j
  · subst same
    simp [h]
  · simp [same]

end Table

end BranchPrediction
