import BranchPrediction.Branch
import BranchPrediction.IndexScheme
import BranchPrediction.Table
import BranchPrediction.Weight
import BranchPrediction.Config.Validation
/-!
# Perceptron prediction

Each row of the table holds a bias and one weight per bit of the global history.
The output of a row adds the weights of the taken bits to its bias and subtracts
the others; the sign of the output is the prediction. A row learns when it was
wrong or not confident enough.

## Main definitions

* `Row`: a bias with its weights
* `Row.partialSum`, `Row.output`: the sum over some or all history bits
* `Row.train`: one learning step
* `trainingThreshold`: how confident an output has to be
* `sumBits`: the signed width that holds every output
* `Perceptron`: the predictor
-/

namespace BranchPrediction

/-! ## Parameters -/

/-- The confidence threshold for histories of `n` bits: `1.93 * n + 14`, rounded
with halves up, and at most the greatest 32-bit integer. -/
def trainingThreshold (n : Nat) : Nat :=
  min (2 ^ 31 - 1) ((193 * n + 1450) / 100)

/-- The least `k` with `m ≤ 2 ^ k`. -/
def ceilLog2 (m : Nat) : Nat :=
  if m ≤ 1 then 0 else Nat.log2 (m - 1) + 1

/-- The signed width that holds every sum of a bias and `n` weights of a given
width. The magnitude is computed in a 64-bit word. -/
def sumBits (n weightBits : Nat) : Nat :=
  ceilLog2 ((n + 1) * 2 ^ (weightBits - 1) % 2 ^ 64) + 1

/-! ## Rows -/

/-- A bias with one weight per history bit. -/
structure Row where
  /-- The weight that does not depend on the history. -/
  bias : Weight
  /-- The weight of each history bit, the newest first. -/
  weights : Array Weight
  deriving DecidableEq

namespace Row

/-- The row of `n` zero weights. -/
def zero (n weightBits : Nat) : Row :=
  ⟨Weight.zero weightBits, Array.replicate n (Weight.zero weightBits)⟩

/-- The weight of history bit `i`. -/
def weight (r : Row) (i : Nat) : Int :=
  if h : i < r.weights.size then r.weights[i].value else 0

/-- What history bit `i` contributes to the output. -/
def term (r : Row) (h : History) (i : Nat) : Int :=
  if h.bit i then r.weight i else -r.weight i

/-- The bias with the contributions of the first `n` history bits. -/
def partialSum (r : Row) (h : History) : Nat → Int
  | 0 => r.bias.value
  | n + 1 => r.partialSum h n + r.term h n

/-- The bias with the contributions of all history bits. -/
def output (r : Row) (h : History) : Int :=
  r.partialSum h r.weights.size

/-- Moves the bias towards the outcome, each weight up where its history bit
agrees with the outcome, and down where it does not. -/
def train (r : Row) (h : History) (taken : Bool) : Row :=
  { bias := r.bias.step taken
    weights := r.weights.mapIdx fun i w => w.step (h.bit i == taken) }

end Row

/-! ## The predictor -/

/-- A table of rows of weights. -/
structure Perceptron where
  history : History
  rows : Table Row
  indexBits : Nat
  /-- How the row is selected. -/
  scheme : IndexScheme
  /-- Outputs of at most this magnitude are not confident. -/
  threshold : Nat

namespace Perceptron

/-- The index scheme that a configuration asks for; history is never folded. -/
def schemeOf (c : Config) : IndexScheme :=
  if c.useHashing then .xor else .direct

/-- The fresh predictor of a valid configuration. -/
def ofConfig (c : Config) : Except ConfigError Perceptron := do
  c.validate
  return {
    history := History.ofLength c.historyLength
    rows := Table.fresh c.entries (Row.zero c.historyLength c.weightBits)
    indexBits := c.indexBits
    scheme := schemeOf c
    threshold := trainingThreshold c.historyLength }

def name (p : Perceptron) : String :=
  match p.scheme with
  | .direct => "perceptron"
  | .xor | .folded => "perceptron-hashed"

/-- The index of the row that `pc` selects under the current history. -/
def index (p : Perceptron) (pc : Addr) : Nat :=
  p.scheme.index pc p.history p.indexBits

/-- The row with a given index. -/
def rowAt (p : Perceptron) (i : Nat) : Row :=
  p.rows.get i

/-- The row that `pc` selects. -/
def row (p : Perceptron) (pc : Addr) : Row :=
  p.rowAt (p.index pc)

/-- The output for the branch at `pc`. -/
def output (p : Perceptron) (pc : Addr) : Int :=
  (p.row pc).output p.history

/-- The predicted direction of the branch at `pc`; zero counts as taken. -/
def predict (p : Perceptron) (pc : Addr) : Bool :=
  0 ≤ p.output pc

/-- Whether a resolved branch trains its row: it was predicted wrongly or not
confidently. -/
def trains (p : Perceptron) (br : Branch) : Bool :=
  let sum := p.output br.pc
  decide (0 ≤ sum) != br.taken || sum.natAbs ≤ p.threshold

/-- A resolved branch may train its row, and enters the history. -/
def update (p : Perceptron) (br : Branch) : Perceptron :=
  let i := p.index br.pc
  let h := p.history
  if p.trains br then
    { p with
      history := h.shifted br.taken
      rows := p.rows.modify i (·.train h br.taken) }
  else
    { p with history := h.shifted br.taken }

end Perceptron

end BranchPrediction
