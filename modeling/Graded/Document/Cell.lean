/-
# Documents in cells

How a document is written in a cell of a table.  A cell is one line, so line characters and tabs
are escaped.  Lists and objects are written out to three levels, with at most a hundred parts on
each, and a real inside them has at most six places.  What lies deeper is written as in a message.

Texts in a list are not quoted.  Those in an object are, and then nothing in them is escaped.
-/
import Graded.Document.Number
import Graded.Document.Shown

namespace Graded

/-! ## 1. One line -/

namespace Text

/-- The text on one line: line characters and tabs are written as escapes. -/
def oneLine (s : String) : String :=
  String.ofList (s.toList.flatMap fun c =>
    if c = '\n' then ['\\', 'n'] else if c = '\r' then ['\\', 'r']
    else if c = '\t' then ['\\', 't'] else [c])

end Text

namespace Document

variable {α : Type} [Scalar α] [Legible α]

/-! ## 2. Parts -/

/-- How many levels are written out. -/
def levels : Nat := 3

/-- How many parts of a list or an object are written. -/
def mostParts : Nat := 100

/-- Parts between brackets, with dots for those that are left out. -/
def enclosed (opening closing : String) (parts : List String) : String :=
  let dots := if mostParts < parts.length then [", ..."] else []
  opening ++ ", ".intercalate (parts.take mostParts) ++ "".intercalate dots ++ closing

/-- The shortest form of a real that is first rounded to six places. -/
def rounded (x : α) : String :=
  match Decimal.Numeral.ofText? (Legible.places 6 x) with
  | some n => Legible.shortest (Scalar.ofNumeral n : α)
  | none => Legible.shortest x

/-- A text in a cell, quoted inside an object and on one line elsewhere. -/
def cellText (inObject : Bool) (s : String) : String :=
  if inObject then "'" ++ s ++ "'" else Text.oneLine s

/-- What is too deep to be written out. -/
def cellDeep (inObject : Bool) (d : Document α) : String :=
  if inObject then d.shown else Text.oneLine d.shown

/-! ## 3. Cells -/

mutual

/-- A document in a cell, with so many levels left to be written out. -/
def cellAt (left : Nat) (inObject : Bool) : Document α → String
  | text s => cellText inObject s
  | real x => if left < levels then rounded x else Legible.shortest x
  | list xs => match left with
    | 0 => cellDeep inObject (list xs)
    | left + 1 => enclosed "[" "]" (cellItems left inObject xs)
  | object ms => match left with
    | 0 => cellDeep inObject (object ms)
    | left + 1 => enclosed "\x7b" "\x7d" (cellMembers left ms)
  | d => d.shown

/-- The items of a list in a cell. -/
def cellItems (left : Nat) (inObject : Bool) : List (Document α) → List String
  | [] => []
  | x :: xs => cellAt left inObject x :: cellItems left inObject xs

/-- The members of an object in a cell. -/
def cellMembers (left : Nat) : List (String × Document α) → List String
  | [] => []
  | (k, x) :: ms => (cellText true k ++ ": " ++ cellAt left true x) :: cellMembers left ms

end

/-- A document in a cell. -/
def inCell (d : Document α) : String := cellAt levels false d

end Document
end Graded
