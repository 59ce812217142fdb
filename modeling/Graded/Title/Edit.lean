/-
# Edit distance

The least number of insertions, deletions and substitutions of single characters that turn one
text into another.  All that is asked of characters is which of them are the same.

It is computed row by row.  The row of a beginning of the first text holds its distance to every
beginning of the second; `nextRow` makes the row of a beginning that is one character longer.
-/

namespace Graded
namespace Title

variable {γ : Type}

/-- The row of the empty beginning: every character has to be inserted. -/
def firstRow (text : List γ) : List Nat := List.range (text.length + 1)

variable [DecidableEq γ]

/-- The distance to one more character of the second text, from the three distances around it:
`diagonal` with neither of the last two characters, `above` without the first text's, `left`
without the second text's. -/
def cell (a b : γ) (diagonal above left : Nat) : Nat :=
  if a = b then diagonal else 1 + min (min above left) diagonal

/-- The rest of a row: `left` is the entry before, and the row above is given from the entry
diagonal to the next one on. -/
def extend (a : γ) (left : Nat) : List Nat → List γ → List Nat
  | diagonal :: above :: row, b :: bs =>
    let next := cell a b diagonal above left
    next :: extend a next (above :: row) bs
  | _, _ => []

/-- The row after one more character of the first text. -/
def nextRow (text : List γ) (row : List Nat) (a : γ) : List Nat :=
  let first := row.headD 0 + 1
  first :: extend a first row text

/-- The edit distance of two texts. -/
def distance (s t : List γ) : Nat := (s.foldl (nextRow t) (firstRow t)).getLastD 0

example : distance "kitten".toList "sitting".toList = 3 := by decide
example : distance "".toList "abc".toList = 3 := by decide
example : distance "abc".toList "".toList = 3 := by decide

end Title
end Graded
