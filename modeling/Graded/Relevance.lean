/-
# Fuzzy precision and recall

Returned titles are compared with expected names without counting hits.  Each title counts with
its best similarity to any expected name, and each expected name with its best similarity to any
returned title:

* the precision is the mean over the returned titles;
* the recall is the mean over the expected names;
* a confusion matrix sums degrees of relevance instead of counting.

Without expected names nothing can be measured, and that is reported.

What is compared is left open: the titles are of any type, with any similarity between them.
-/
import Graded.Clipped
import Graded.Notice
import Graded.Summary
import Graded.Vocabulary

namespace Graded

variable {α β : Type} [Scalar α]

/-! ## 1. The best match -/

/-- One step of the search for the best match: a candidate displaces another only if it is
strictly more similar. -/
def closer (similarity : β → β → α) (name : β) (best : Option β × α) (candidate : β) :
    Option β × α :=
  let s := similarity name candidate
  if best.2 < s then (some candidate, s) else best

/-- The first candidate most similar to a name, with its similarity.  A name that is similar to
nothing has no best match. -/
def bestMatch (similarity : β → β → α) (name : β) (candidates : List β) : Option β × α :=
  candidates.foldl (closer similarity name) (none, 0)

@[simp] theorem bestMatch_nil (similarity : β → β → α) (name : β) :
    bestMatch similarity name [] = (none, 0) := rfl

/-! ## 2. Relevance -/

/-- The band of relevance for each band of similarity. -/
def relevanceBand : Keyed String :=
  [("exact_match", "perfectly_relevant"), ("strong_match", "highly_relevant"),
   ("partial_match", "relevant"), ("weak_match", "marginally_relevant"),
   ("no_match", "irrelevant")]

/-- The degrees of a similarity, carried over to the bands of relevance. -/
def relevanceGrades (similarity : α) : Grading α :=
  (Vocabulary.similarity.fuzzify similarity).map fun g =>
    ((relevanceBand.lookup g.1).getD g.1, g.2)

/-- The degree of relevance of a similarity: the centres of the bands of relevance, weighted. -/
def relevanceOf (similarity : α) : α :=
  weightedCentre (relevanceGrades similarity) Vocabulary.relevanceCentres

/-! ## 3. The confusion matrix -/

/-- Sums of degrees in place of counts. -/
structure Confusion (α : Type) where
  truePositive : α
  falsePositive : α
  falseNegative : α
  returned : Nat
  expected : Nat

/-- Adds up what a list of degrees lacks to 1. -/
def shortfall (degrees : List α) : α := Scalar.total (degrees.map fun d => 1 - d)

/-- The best similarity of each name to any of the candidates. -/
def bestSimilarities (similarity : β → β → α) (names candidates : List β) : List α :=
  names.map fun n => (bestMatch similarity n candidates).2

/-- The confusion matrix of returned titles and expected names. -/
def confusion (similarity : β → β → α) (returned expected : List β) : Confusion α :=
  let relevances := (bestSimilarities similarity returned expected).map relevanceOf
  ⟨Scalar.total relevances, shortfall relevances,
    shortfall (bestSimilarities similarity expected returned), returned.length,
    expected.length⟩

/-! ## 4. Precision, recall and their summary -/

/-- How one returned title fared. -/
structure MatchDetail (α β : Type) where
  returned : β
  best : Option β
  similarity : α
  relevance : α

/-- The result of a comparison. -/
structure Metrics (α β : Type) where
  precision : α
  recalled : α
  f1 : α
  matrix : Confusion α
  summary : Summary α
  details : List (MatchDetail α β)
  measurable : Bool

/-- What is said about a result that could not be measured. -/
def Metrics.note (m : Metrics α β) : String := if m.measurable then "" else noExpectedNames

/-- "None of the results are relevant", with the given truth. -/
def noneRelevant (truth : α) : Summary α := ⟨"none", "results", "relevant", truth, 0, true⟩

/-- How one returned title fares against the expected names. -/
def detail (similarity : β → β → α) (expected : List β) (title : β) : MatchDetail α β :=
  let (best, s) := bestMatch similarity title expected
  ⟨title, best, s, relevanceOf s⟩

/-- The comparison where there is something on both sides. -/
def measured (similarity : β → β → α) (returned expected : List β) : Metrics α β :=
  let details := returned.map (detail similarity expected)
  let precision := plainMean (details.map (·.similarity))
  let recalled := plainMean (bestSimilarities similarity expected returned)
  ⟨precision, recalled, harmonicMean precision recalled, confusion similarity returned expected,
    Summary.fitting "results" "relevant" precision true, details, true⟩

/-- The comparison of returned titles with expected names.  If nothing was returned, both
precision and recall are 0 and it is true that none of the results are relevant. -/
def measure (similarity : β → β → α) (returned expected : List β) : Noted (Metrics α β) :=
  if expected.isEmpty then
    ⟨⟨0, 0, 0, ⟨0, 0, 0, returned.length, 0⟩, noneRelevant 0, [], false⟩, [.nothingExpected]⟩
  else if returned.isEmpty then
    Noted.quiet ⟨0, 0, 0, ⟨0, 0, (expected.length : α), 0, expected.length⟩, noneRelevant 1, [],
      true⟩
  else Noted.quiet (measured similarity returned expected)

end Graded
