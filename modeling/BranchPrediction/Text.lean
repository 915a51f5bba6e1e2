/-!
# Plain text

Names are compared without regard to the case of ASCII letters, and tables are
laid out in columns of characters.

## Main definitions

* `sameIgnoringCase`: names that differ at most in case
* `rule`: a horizontal rule
* `padRight`: a column entry
-/

namespace BranchPrediction

/-- Whether two names differ at most in the case of ASCII letters. -/
def sameIgnoringCase (s t : String) : Bool :=
  s.map Char.toLower == t.map Char.toLower

/-- A horizontal rule of a given width. -/
def rule (c : Char) (width : Nat) : String :=
  String.ofList (List.replicate width c)

/-- A text followed by blanks up to a given width. -/
def padRight (width : Nat) (s : String) : String :=
  s ++ rule ' ' (width - s.length)

end BranchPrediction
