/-
# Linguistic quantifiers

A quantifier such as "few" or "most" is a fuzzy set over the proportions between 0 and 1.  The
list `relative` runs from "none" to "all".  A quantifier also says whether it rises or falls with
the proportion, if that was stated when it was made.

A quantifier guides an ordered weighted average: the weight of the `i`-th greatest of `n` values
is what the quantifier gains between `(i - 1) / n` and `i / n`.
-/
import Graded.Document.Number
import Graded.Grading
import Graded.Shape.Definition
import Graded.Text.Words

namespace Graded

/-! ## 1. Quantifiers -/

/-- Whether a quantifier grows with the proportion. -/
inductive Trend where
  | rising
  | falling
  | unstated
  deriving DecidableEq, Repr

/-- A fuzzy set of proportions under a name. -/
structure Quantifier (α : Type) where
  name : String
  shape : Shape α
  trend : Trend

namespace Quantifier

variable {α : Type} [Scalar α]

/-- The degree to which a proportion is what the quantifier says. -/
def degree (q : Quantifier α) (proportion : α) : α := q.shape.degree proportion

/-- The quantifiers from the least proportion to the greatest. -/
def relative : List (Quantifier α) :=
  [⟨"none", .leftShoulder 0.0 0.05, .falling⟩,
   ⟨"almost_none", .triangular 0.0 0.05 0.15, .falling⟩,
   ⟨"few", .triangular 0.05 0.15 0.35, .falling⟩,
   ⟨"some", .triangular 0.2 0.35 0.5, .unstated⟩,
   ⟨"about_half", .triangular 0.35 0.5 0.65, .unstated⟩,
   ⟨"many", .triangular 0.5 0.65 0.8, .rising⟩,
   ⟨"most", .triangular 0.65 0.8 0.95, .rising⟩,
   ⟨"almost_all", .triangular 0.85 0.95 1.0, .rising⟩,
   ⟨"all", .rightShoulder 0.95 1.0, .rising⟩]

/-- The quantifier that is named where none has any degree. -/
def fallback : String := "some"

/-- The quantifier of a name. -/
def find (name : String) : Except (Fault α) (Quantifier α) :=
  match relative.find? fun q => q.name == name with
  | some q => .ok q
  | none => .error (.unknownQuantifier name)

/-- The degree of a proportion in each quantifier. -/
def grades (proportion : α) : Grading α := relative.map fun q => (q.name, q.degree proportion)

/-- The quantifier that fits a proportion best; the first one wins ties. -/
def best (proportion : α) : String × α := Grading.strongest fallback (grades proportion)

/-- The quantifiers that fit a proportion to at least the threshold, the best one first. -/
def applicable (proportion threshold : α) : Grading α :=
  Grading.ranked (Grading.reaching threshold (grades proportion))

/-! ## 2. Making quantifiers -/

/-- The order of two parameters before they are read: numbers by value, texts by their letters. -/
def less (a b : Document α) : Except (Fault α) Bool :=
  match a, b with
  | .text s, .text t => .ok (s < t)
  | .text _, _ => .error .notNumber
  | _, .text _ => .error .notNumber
  | a, b => do return (← a.number) < (← b.number)

/-- The quantifier of a definition.  A shoulder falls between two parameters in ascending order
and rises between two in descending order. -/
def define (name kind : String) (params : List (Document α)) :
    Except (Fault α) (Quantifier α) := do
  if kind = "triangular" || kind = "trapezoidal" then
    return ⟨name, ← Shape.define kind params, .unstated⟩
  else if kind = "shoulder" then
    match params with
    | [a, b] =>
      if ← less a b then return ⟨name, ← Shape.define "left_shoulder" [a, b], .falling⟩
      else return ⟨name, ← Shape.define "right_shoulder" [b, a], .rising⟩
    | _ => throw .shoulderCount
  else throw (.unknownQuantifierKind kind)

/-! ## 3. Guided averages -/

/-- The gains between neighbours in a list. -/
def gains : List α → List α
  | a :: b :: rest => (b - a) :: gains (b :: rest)
  | _ => []

@[simp] theorem length_gains (xs : List α) : (gains xs).length = xs.length - 1 := by
  induction xs with
  | nil => rfl
  | cons a rest ih =>
    cases rest with
    | nil => rfl
    | cons b rest => simp only [gains, List.length_cons] at ih ⊢; omega

/-- The degrees of the proportions `0`, `1 / n`, …, `n / n`. -/
def steps (q : Quantifier α) (n : Nat) : List α :=
  (List.range (n + 1)).map fun (i : Nat) => q.degree ((i : α) / (n : α))

/-- The weights a quantifier gives to `n` values in descending order.  They are its gains, made
to add up to 1; where the quantifier gains nothing on the whole, they are even. -/
def weights (q : Quantifier α) (n : Nat) : List α :=
  if n = 0 then []
  else
    let raw := gains (q.steps n)
    let total := Scalar.total raw
    if 0 < total then raw.map (· / total)
    else (List.range n).map fun _ => 1 / (n : α)

/-- The average of values that a quantifier guides; 0 for no values. -/
def average (q : Quantifier α) (values : List α) : α :=
  if values.isEmpty then 0
  else Scalar.total
    (List.zipWith (· * ·) (q.weights values.length) (Scalar.descending values))

end Quantifier
end Graded
