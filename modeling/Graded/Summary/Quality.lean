/-
# The quality of a summary

Besides its truth, a summary is rated by how specific its summarizer is, how much of the subject
it covers, how well the two agree, and how short it is.  An element is covered if its degree
reaches a threshold.
-/
import Graded.Averaging
import Graded.Summary

namespace Graded

variable {α : Type} [Scalar α]

/-- The ratings of a summary. -/
structure Quality (α : Type) where
  truth : α
  imprecision : α
  covering : α
  appropriateness : α
  brevity : α
  overall : α

namespace Quality

/-- The degree from which on an element counts as covered. -/
def threshold : α := 0.01

/-- How many degrees reach the threshold. -/
def covered (limit : α) (degrees : List α) : Nat := degrees.countP fun mu => limit ≤ mu

/-- The share of the elements that are covered; 0 of none. -/
def coveringOf (degrees : List α) (limit : α) : α :=
  if degrees.isEmpty then 0 else (covered limit degrees : α) / (degrees.length : α)

/-- The share of the elements that are not covered; 0 of none. -/
def imprecisionOf (degrees : List α) (limit : α) : α :=
  if degrees.isEmpty then 0 else 1 - (covered limit degrees : α) / (degrees.length : α)

/-- How near the mean degree is to the share that is covered; 0 for no elements. -/
def appropriatenessOf (degrees : List α) (limit : α) : α :=
  if degrees.isEmpty then 0
  else 1 - Scalar.magnitude (Scalar.mean degrees - coveringOf degrees limit)

/-- A half for every summarizer after the first. -/
def brevityOf (summarizers : Int) : Except (Fault α) α := do
  let e : α := ((-(summarizers - 1) : Int) : α)
  if Scalar.isInfinite e then throw .overflow
  match ← Scalar.realPower? 2.0 e with
  | some x => return x
  | none => throw .noRealPower

/-- The parts of the overall quality in its weighted sum: the truth counts most. -/
def overallOf (truth imprecision covering appropriateness brevity : α) : α :=
  Scalar.total [0.4 * truth, 0.15 * imprecision, 0.15 * covering, 0.15 * appropriateness,
    0.15 * brevity]

/-- All ratings of a summary of the given truth. -/
def rate (truth : α) (degrees : List α) (summarizers : Int) : Except (Fault α) (Quality α) := do
  let brevity ← brevityOf summarizers
  if degrees.isEmpty then return ⟨truth, 0, 0, 0, brevity, 0⟩
  else
    let imprecision := imprecisionOf degrees threshold
    let covering := coveringOf degrees threshold
    let appropriateness := appropriatenessOf degrees threshold
    return ⟨truth, imprecision, covering, appropriateness, brevity,
      overallOf truth imprecision covering appropriateness brevity⟩

end Quality
end Graded
