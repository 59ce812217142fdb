/-
# Similar titles

Titles are compared without their case and without the blanks around them.  The similarity of two
titles is 1 less the share of the longer one that has to be edited; two titles of which just one
is empty have nothing in common.

`find` looks for a title in a list of names.  A name that equals the title, contains it or is
contained in it matches at once; otherwise the most similar name matches if it is similar enough.
-/
import Graded.Scalar
import Graded.Text.Case
import Graded.Text.Words
import Graded.Title.Edit

namespace Graded
namespace Title

/-! ## 1. Similarity -/

/-- A title as it is compared. -/
def normal (title : List Char) : List Char := Text.trim (Text.lower title)

variable {α : Type} [Scalar α]

/-- The similarity of two titles that are in their compared form. -/
def likeness (a b : List Char) : α :=
  if a = b then 1
  else if a.isEmpty || b.isEmpty then 0
  else 1 - (distance a b : α) / ((max a.length b.length : Nat) : α)

/-- The similarity of two titles. -/
def similarity (s t : List Char) : α := likeness (normal s) (normal t)

/-! ## 2. Finding a title -/

/-- What looking for a title came to. -/
structure Match (α : Type) where
  matched : Bool
  name : Option String
  similarity : α

/-- Two titles in compared form are equal or one contains the other. -/
def overlaps (a b : List Char) : Bool := a == b || Text.within b a || Text.within a b

/-- Nothing found. -/
def Match.nothing : Match α := ⟨false, none, 0⟩

/-- The match of a title, after the names so far have come to `best`. -/
def findFrom (title : List Char) (threshold : α) (best : Match α) : List String → Match α
  | [] => best
  | name :: names =>
    if overlaps title (normal name.toList) then ⟨true, some name, 1⟩
    else
      let s : α := similarity title (normal name.toList)
      if best.similarity < s then
        findFrom title threshold
          ⟨threshold ≤ s, if threshold ≤ s then some name else none, s⟩ names
      else findFrom title threshold best names

/-- The match of a title among names. -/
def find (title : String) (names : List String) (threshold : α) : Match α :=
  findFrom (normal title.toList) threshold Match.nothing names

end Title
end Graded
