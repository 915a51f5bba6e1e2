import BranchPrediction.Proofs.Counters.Consultation
/-!
# Tables of counters under other names

Two predictors may keep the same counters in different cells. If every branch
that consults or trains a cell of the first one consults or trains the cell of
that name in the second one, and if no two cells have one name, then equal
counters stay equal and the two predict the same.

Which cell a branch selects may depend on histories, so the names fit only while
the histories of the two predictors are related, and every branch has to keep
them so. It may also matter which branches there are: the names may be made for
branches at some addresses only.

## Main definitions

* `CounterUse.Renames`: cells of one predictor under the names of another one
* `CounterUse.Mirrors`: states with equal counters under equal names

## Main results

* `CounterUse.Mirrors.update`, `CounterUse.Mirrors.foldl`: a run keeps counters equal
* `CounterUse.Mirrors.predict_foldl`: so a run leaves two predictors that predict alike
-/

namespace BranchPrediction

namespace CounterUse

variable {σ τ : Type} {m : CounterUse σ} {m' : CounterUse τ} {bits : Nat}
  {Inv : σ → Prop} {Inv' : τ → Prop} {kind : Addr → Prop} {rename : Nat → Nat}
  {Related : σ → τ → Prop}

/-- While their states are related, the cells that branches at addresses of some
kind select in `m` are those that they select in `m'`, up to their names. -/
structure Renames (m : CounterUse σ) (m' : CounterUse τ) (bits : Nat) (Inv : σ → Prop)
    (Inv' : τ → Prop) (kind : Addr → Prop) (rename : Nat → Nat) (Related : σ → τ → Prop) :
    Prop where
  lawful : m.Lawful bits Inv
  lawful' : m'.Lawful bits Inv'
  /-- No two cells have one name. -/
  injective : Function.Injective rename
  left : ∀ {p q}, Related p q → Inv p
  right : ∀ {p q}, Related p q → Inv' q
  consulted_eq : ∀ {p q}, Related p q → ∀ pc, kind pc →
    m'.consulted q pc = rename (m.consulted p pc)
  trained_eq : ∀ {p q}, Related p q → ∀ br, kind br.pc →
    m'.trained q br = rename (m.trained p br)
  update : ∀ {p q}, Related p q → ∀ br, kind br.pc →
    Related (m.update p br) (m'.update q br)

/-- Related states, each counter of which is found in the other one under its
name. -/
structure Mirrors (m : CounterUse σ) (m' : CounterUse τ) (rename : Nat → Nat)
    (Related : σ → τ → Prop) (p : σ) (q : τ) : Prop where
  related : Related p q
  get_eq : ∀ i, (m'.counters q).get (rename i) = (m.counters p).get i

namespace Mirrors

variable {p : σ} {q : τ}

/-- A branch trains one counter and its image, and no other. -/
theorem update (mirrors : Mirrors m m' rename Related p q)
    (renames : Renames m m' bits Inv Inv' kind rename Related) {br : Branch}
    (here : kind br.pc) : Mirrors m m' rename Related (m.update p br) (m'.update q br) where
  related := renames.update mirrors.related br here
  get_eq i := by
    have trained := renames.trained_eq mirrors.related br here
    rw [renames.lawful.get_update (renames.left mirrors.related),
      renames.lawful'.get_update (renames.right mirrors.related), trained, mirrors.get_eq]
    by_cases same : m.trained p br = i
    · rw [if_pos same, if_pos (congrArg rename same)]
    · -- the name of another cell is another name
      rw [if_neg same, if_neg (mt (@renames.injective _ _) same)]

/-- A run keeps equal counters equal. -/
theorem foldl (mirrors : Mirrors m m' rename Related p q)
    (renames : Renames m m' bits Inv Inv' kind rename Related) {trace : List Branch}
    (here : ∀ br ∈ trace, kind br.pc) :
    Mirrors m m' rename Related (trace.foldl m.update p) (trace.foldl m'.update q) := by
  induction trace generalizing p q with
  | nil => exact mirrors
  | cons br trace ih =>
    apply ih (mirrors.update renames (here br List.mem_cons_self))
    intro later member
    exact here later (List.mem_cons_of_mem br member)

/-- The two predictors consult equal counters. -/
theorem predict_eq (mirrors : Mirrors m m' rename Related p q)
    (renames : Renames m m' bits Inv Inv' kind rename Related) {pc : Addr} (here : kind pc) :
    m'.predict q pc = m.predict p pc := by
  rw [renames.lawful.predict_eq, renames.lawful'.predict_eq,
    renames.consulted_eq mirrors.related pc here, mirrors.get_eq]

/-- The two predictors predict alike after every run of such branches. -/
theorem predict_foldl (mirrors : Mirrors m m' rename Related p q)
    (renames : Renames m m' bits Inv Inv' kind rename Related) {trace : List Branch}
    (run : ∀ br ∈ trace, kind br.pc) {pc : Addr} (here : kind pc) :
    m'.predict (trace.foldl m'.update q) pc = m.predict (trace.foldl m.update p) pc :=
  (mirrors.foldl renames run).predict_eq renames here

end Mirrors

end CounterUse

end BranchPrediction
