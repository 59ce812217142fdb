/-
# Tables of text

Rows and columns laid out as text.  A column is as wide as its widest cell, everything stands to
the right in its column, and one space separates the columns.  The heading of a column of numbers
keeps a space in front.

Rows can have names, which stand to the left.  A name that is no real begins with a blank, where a
sign would stand, and the blanks that all names begin with are dropped.
-/
import Graded.Column
import Graded.Document.Cell

namespace Graded

/-! ## 1. Texts of a width -/

namespace Text

/-- The text with spaces in front up to a width. -/
def toRight (width : Nat) (s : String) : String := "".pushn ' ' (width - s.length) ++ s

/-- The text with spaces after it up to a width. -/
def toLeft (width : Nat) (s : String) : String := s.pushn ' ' (width - s.length)

/-- The greatest length in a list of texts. -/
def widest (texts : List String) : Nat := texts.foldl (fun n s => max n s.length) 0

end Text

namespace Table

variable {α : Type} [Scalar α] [Legible α]

/-! ## 2. Columns -/

/-- A heading with the texts below it. -/
structure Strip where
  heading : String
  cells : List String
  deriving Repr

/-- A real with three places, or the word for a missing number. -/
def realCell (x : α) : String := if Scalar.undefined x then "NaN" else Legible.places 3 x

/-- The text of a cell in a column of a kind.  Null is the word for nothing only in a column that
has nothing in common. -/
def cell (k : Column.Kind) : Document α → String
  | .real x => realCell x
  | .null => if k = .mixed then "None" else "NaN"
  | d => d.inCell

namespace Strip

/-- The strip of a heading and the documents below it. -/
def ofDocuments (heading : String) (cells : List (Document α)) : Strip :=
  let k := Column.Kind.of cells
  ⟨if k.isNumeric then " " ++ heading else heading, cells.map fun d => cell k (k.settle d)⟩

/-- The strip of reals that may be missing. -/
def ofFigures (heading : String) (figures : List (Option α)) : Strip :=
  ⟨" " ++ heading, figures.map fun f => realCell (f.getD Scalar.nothing)⟩

/-- The strip as lines of equal length. -/
def lines (c : Strip) : List String :=
  let all := c.heading :: c.cells
  all.map (Text.toRight (Text.widest all))

end Strip

/-! ## 3. Names of rows -/

/-- A real. -/
def isReal : Document α → Bool
  | .real _ => true
  | _ => false

/-- The name of a row among names of a kind.  Where there is no sign, there is a place for one,
except before a real. -/
def rowName (k : Column.Kind) (d : Document α) : String :=
  if isReal d || (k == .wholes && (cell k d).startsWith "-") then cell k d else " " ++ cell k d

/-- One blank less in front of each text, as long as every text begins with one. -/
def trimEven : Nat → List String → List String
  | 0, texts => texts
  | bound + 1, texts =>
    if !texts.isEmpty && texts.all (·.startsWith " ") then
      trimEven bound (texts.map fun s => String.ofList (s.toList.drop 1))
    else texts

/-- The names of rows as they are written. -/
def rowNames (cells : List (Document α)) : List String :=
  let texts := cells.map (rowName (Column.Kind.of cells))
  trimEven (Text.widest texts) texts

/-! ## 4. Layout -/

/-- Blocks of lines side by side, `gap` spaces apart.  All blocks have as many lines. -/
def beside (gap : Nat) : List (List String) → List String
  | [] => []
  | [block] => block
  | block :: rest =>
    let width := Text.widest block + gap
    List.zipWith (fun s t => Text.toLeft width s ++ t) block (beside gap rest)

/-- Lines as one text. -/
def joinLines (lines : List String) : String := "\n".intercalate lines

/-- A table without names for its rows. -/
def plain (columns : List Strip) : String := joinLines (beside 1 (columns.map Strip.lines))

/-- A column with an empty line under its heading. -/
def withGap (c : Strip) : List String :=
  match c.lines with
  | [] => []
  | heading :: cells => heading :: "".pushn ' ' heading.length :: cells

/-- A table whose rows have names.  What the names are stands on a line of its own. -/
def named (title : String) (names : List String) (columns : List Strip) : String :=
  let first := "" :: title :: names
  joinLines (beside 1 (first.map (Text.toLeft (Text.widest first)) :: columns.map withGap))

/-- A table of no rows. -/
def empty (headings : List String) : String :=
  "Empty DataFrame\nColumns: [" ++ ", ".intercalate headings ++ "]\nIndex: []"

/-- Values under each other, each after its name. -/
def list (entries : List (String × String)) : String :=
  let values := entries.map (·.2)
  joinLines (beside 3 [(entries.map (·.1)), values.map (Text.toRight (Text.widest values))])

end Table
end Graded
