/-
# Linguistic summaries

A linguistic summary says "Q of the S are R": a quantifier Q, a subject S and a summarizer R that
gives each element of S a degree.  Its truth is the degree to which Q holds of the proportion of
S that is R, where elements count by their degrees.

The truth of a summary is 0 wherever there is nothing to take a proportion of.
-/
import Graded.Fault
import Graded.Legible
import Graded.Norm
import Graded.Quantifier

namespace Graded

variable {α : Type} [Scalar α]

/-! ## 1. Truth -/

/-- The mean degree, 0 for no degrees. -/
def proportion (degrees : List α) : α := if degrees.isEmpty then 0 else Scalar.mean degrees

namespace Truth

/-- The truth of "Q of the S are R". -/
def simple (q : Quantifier α) (degrees : List α) : α :=
  if degrees.isEmpty then 0 else q.degree (proportion degrees)

/-- The truth of "Q of the S which are W are R": among the elements, as far as they are W, the
share that is also R. -/
def qualified (q : Quantifier α) (qualifier summarizer : List α) : Except (Fault α) α :=
  if qualifier.length ≠ summarizer.length then .error .unequalMemberships
  else if qualifier.isEmpty then .ok 0
  else if Scalar.total qualifier == 0 then .ok 0
  else .ok (q.degree
    (Scalar.total (List.zipWith Scalar.lesser qualifier summarizer) / Scalar.total qualifier))

/-- Rows of degrees folded into one, element by element, starting from `start` everywhere. -/
def pointwise (f : α → α → α) (start : α) (rows : List (List α)) : Except (Fault α) (List α) :=
  match rows with
  | [] => .ok []
  | row :: _ =>
    if rows.any fun r => r.length != row.length then .error .unequalMemberships
    else .ok (rows.foldl (List.zipWith f) (row.map fun _ => start))

/-- The truth of "Q of the S are R₁ and R₂ …". -/
def conjunctive (q : Quantifier α) (rows : List (List α)) : Except (Fault α) α :=
  (pointwise TNorm.minimum.value 1 rows).map (simple q)

/-- The truth of "Q of the S are R₁ or R₂ …". -/
def disjunctive (q : Quantifier α) (rows : List (List α)) : Except (Fault α) α :=
  (pointwise TConorm.maximum.value 0 rows).map (simple q)

end Truth

/-! ## 2. Summaries -/

/-- A summary with its truth and the proportion it was computed from. -/
structure Summary (α : Type) where
  quantifier : String
  subject : String
  summarizer : String
  truth : α
  support : α
  /-- the statement cites the proportion -/
  citesSupport : Bool

namespace Summary

/-- "Q of the S are R". -/
def sentence (quantifier subject summarizer : String) : String :=
  Text.spaced quantifier ++ " of the " ++ subject ++ " are " ++ summarizer

/-- The full statement of a summary. -/
def statement [Legible α] (s : Summary α) : String :=
  let body := sentence s.quantifier s.subject s.summarizer
  if s.citesSupport then
    body ++ " (support: " ++ Legible.places 1 (s.support * 100.0) ++ "%)"
  else body

/-- The quantifier that fits a proportion best, as a summary. -/
def fitting (subject summarizer : String) (support : α) (citesSupport : Bool) : Summary α :=
  let (quantifier, truth) := Quantifier.best support
  ⟨quantifier, subject, summarizer, truth, support, citesSupport⟩

end Summary
end Graded
