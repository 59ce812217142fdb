/-
# Columns

The documents under one heading make a column, and the column has a kind: the documents are all
truth values, all whole numbers, all numbers of which some are real or missing, all texts, or they
have nothing in common.

* `Kind.of` finds the kind by going through the cells in order;
* `Kind.settle` gives a cell the form that its kind asks for;
* `tooGreat` says whether the search meets a whole number that no double comes near.

Whole numbers have a common kind only if one machine word holds them all, with a sign or without
one.  After a missing cell this is not asked any more, since the numbers will be reals.
-/
import Graded.Document.Number

namespace Graded
namespace Column

variable {α : Type} [Scalar α]

/-! ## 1. Kinds -/

/-- What the cells of a column have in common. -/
inductive Kind where
  | truths
  | wholes
  | reals
  | texts
  | mixed
  deriving DecidableEq, Repr

/-- A missing cell: null, or the undefined number. -/
def isMissing : Document α → Bool
  | .null => true
  | .real x => Scalar.undefined x
  | _ => false

/-- A text. -/
def isText : Document α → Bool
  | .text _ => true
  | _ => false

/-! ## 2. The search for a kind -/

/-- What has been met in the cells so far. -/
structure Survey where
  null : Bool
  undefined : Bool
  truth : Bool
  real : Bool
  whole : Bool
  /-- a whole number that needs a sign -/
  negative : Bool
  /-- a whole number that leaves no room for a sign -/
  large : Bool
  /-- the cells have no common kind -/
  mixed : Bool
  /-- a whole number beyond all doubles -/
  beyond : Bool
  deriving DecidableEq, Repr

namespace Survey

/-- Nothing has been met. -/
def start : Survey := ⟨false, false, false, false, false, false, false, false, false⟩

/-- The numbers that so many bits can hold. -/
def limit (bits : Nat) : Int := Int.ofNat (Decimal.twoTo bits)

/-- The number needs a sign, within a machine word. -/
def needsSign (n : Int) : Bool := -limit 63 ≤ n && n < 0

/-- The number fills a machine word. -/
def fillsWord (n : Int) : Bool := limit 63 ≤ n && n < limit 64

/-- The number is in no machine word. -/
def outside (n : Int) : Bool := n < -limit 63 || limit 64 ≤ n

/-- The survey with one more whole number. -/
def withWhole (s : Survey) (n : Int) : Survey :=
  let s := { s with whole := true }
  if s.null then s
  else
    let s := { s with negative := s.negative || needsSign n, large := s.large || fillsWord n }
    { s with mixed := (s.negative && s.large) || outside n }

/-- The survey with one more cell. -/
def withCell (s : Survey) : Document α → Survey
  | .null => { s with null := true }
  | .bool _ => { s with truth := true }
  | .real x => if Scalar.undefined x then { s with undefined := true } else { s with real := true }
  | .integer n =>
    if Scalar.isInfinite (n : α) then { s with whole := true, beyond := true } else s.withWhole n
  | _ => { s with mixed := true }

/-- The survey of more cells.  It ends where the kind is decided. -/
def through (s : Survey) : List (Document α) → Survey
  | [] => s
  | d :: ds => if s.mixed || s.beyond then s else through (s.withCell d) ds

/-- Numbers have been met, or the undefined one. -/
def numeric (s : Survey) : Bool := s.undefined || s.real || s.whole

/-- The kind that a survey comes to. -/
def kind (s : Survey) : Kind :=
  if s.mixed || (s.truth && (s.numeric || s.null)) then .mixed
  else if s.truth then .truths
  else if s.real || s.undefined || (s.null && s.whole) then .reals
  else if s.whole then .wholes
  else .mixed

end Survey

/-- The survey of a column. -/
def survey (cells : List (Document α)) : Survey := Survey.start.through cells

/-- The search for a kind meets a whole number that no double comes near. -/
def tooGreat (cells : List (Document α)) : Bool := (survey cells).beyond

/-- Texts, of which some may be missing but not all. -/
def areTexts (cells : List (Document α)) : Bool :=
  cells.any isText && cells.all fun d => isText d || isMissing d

/-- The kind of a column.  Without cells there is no kind. -/
def Kind.of (cells : List (Document α)) : Kind :=
  if areTexts cells then .texts else (survey cells).kind

@[simp] theorem kind_nil : Kind.of ([] : List (Document α)) = .mixed := rfl

/-! ## 3. Cells of a kind -/

/-- A cell as its kind has it.  What is missing is the undefined number among reals and null among
texts. -/
def Kind.settle (k : Kind) (d : Document α) : Document α :=
  match k with
  | reals => match d with
    | .integer n => .real (n : α)
    | .null => .real Scalar.nothing
    | d => d
  | texts => if isMissing d then .null else d
  | _ => d

/-- The cells of a column as its kind has them. -/
def settled (cells : List (Document α)) : List (Document α) := cells.map (Kind.of cells).settle

@[simp] theorem length_settled (cells : List (Document α)) :
    (settled cells).length = cells.length := by
  simp [settled]

/-- The column holds numbers or truth values. -/
def Kind.isNumeric : Kind → Bool
  | truths | wholes | reals => true
  | texts | mixed => false

/-- The column, unless the search for its kind meets a number that no double comes near. -/
def check (cells : List (Document α)) : Except (Fault α) Unit :=
  if tooGreat cells then .error .overflow else .ok ()

end Column
end Graded
