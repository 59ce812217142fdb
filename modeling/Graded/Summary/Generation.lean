/-
# Generating summaries

`generate` tries every quantifier on every summarizer and keeps the summaries that are true
enough, the truest first; summaries of one truth stay in the order in which they were tried.
`best` keeps one summary for one summarizer.
-/
import Graded.Summary

namespace Graded

variable {α ι : Type} [Scalar α]

/-- A named way to give an item a degree. -/
structure Summarizer (ι α : Type) where
  name : String
  degree : ι → Except (Fault α) α

namespace Summary

/-- The summary of one quantifier and one summarizer with the given degrees. -/
def ofDegrees (subject summarizer : String) (degrees : List α) (q : Quantifier α) : Summary α :=
  ⟨q.name, subject, summarizer, Truth.simple q degrees, proportion degrees, false⟩

/-- The summaries of one summarizer that are true enough, quantifier by quantifier. -/
def candidates (subject : String) (least : α) (quantifiers : List (Quantifier α))
    (summarizer : String) (degrees : List α) : List (Summary α) :=
  (quantifiers.map (ofDegrees subject summarizer degrees)).filter fun s => least ≤ s.truth

/-- Summaries by descending truth. -/
def ranked (summaries : List (Summary α)) : List (Summary α) :=
  summaries.mergeSort fun s t => decide (t.truth ≤ s.truth)

/-- Every summary of the items that is true enough. -/
def generate (items : List ι) (summarizers : List (Summarizer ι α)) (subject : String)
    (least : α) (quantifiers : List (Quantifier α)) : Except (Fault α) (List (Summary α)) := do
  let found ← summarizers.mapM fun s => do
    return candidates subject least quantifiers s.name (← items.mapM s.degree)
  return ranked found.flatten

/-- The summary of the items with the quantifier that fits best. -/
def best (items : List ι) (summarizer : Summarizer ι α) (subject : String) :
    Except (Fault α) (Summary α) := do
  let degrees ← items.mapM summarizer.degree
  return fitting subject summarizer.name (proportion degrees) false

end Summary
end Graded
