/-
# From memberships back to a crisp value

Degrees of membership in the sets of a variable become a crisp value again in three ways.

* Each set is clipped at its degree, the clipped sets are joined by their maximum, and the
  resulting profile is defuzzified.
* Each set counts with one representative centre, weighted by its degree.
* Outputs of rules that are numbers already are weighted by the strengths of the rules.
-/
import Graded.Profile
import Graded.Variable
import Graded.WeightedMean

namespace Graded

variable {α : Type} [Scalar α]

/-! ## 1. Clipped sets -/

namespace Variable

/-- The sets of positive degree, each sampled at the given points and clipped at its degree. -/
def clippedSets (v : Variable α) (memberships : Grading α) (xs : List α) : List (List α) :=
  (v.sets.filter fun s => 0 < memberships.degreeOf s.name).map fun s =>
    (s.sample xs).map fun mu => Scalar.lesser mu (memberships.degreeOf s.name)

/-- The maximum of sampled sets, point by point; 0 everywhere if there are none. -/
def joined (xs : List α) : List (List α) → List α
  | [] => xs.map fun _ => 0
  | row :: rows => rows.foldl (List.zipWith Scalar.larger) row

/-- The profile of the clipped sets at the given points. -/
def clippedAt (v : Variable α) (memberships : Grading α) (xs : List α) : Profile α :=
  ⟨xs, joined xs (v.clippedSets memberships xs)⟩

/-- The profile of the clipped sets over the domain in equal steps.  Only the sets of positive
degree are sampled. -/
def clipped (v : Variable α) (memberships : Grading α) (steps : Int) :
    Except (Fault α) (Profile α) := do
  let xs ← v.points? steps
  if v.sets.any fun s => 0 < memberships.degreeOf s.name && s.shape.tooWide then
    throw .overflow
  return v.clippedAt memberships xs

/-- The crisp value of the profile of the clipped sets. -/
def defuzzify (z : Defuzzifier) (v : Variable α) (memberships : Grading α) (steps : Int) :
    Except (Fault α) (Noted α) := do
  z.apply (← v.clipped memberships steps)

end Variable

/-! ## 2. Centres and outputs -/

/-- The mean of the centres of the sets of positive degree, weighted by the degrees.  A set
without a centre counts with centre 0; without any set the answer is 0. -/
def weightedCentre (memberships centres : Grading α) : α :=
  let active := memberships.filter fun m => 0 < m.2
  if active.isEmpty then 0
  else weightedMean (active.map fun m => (m.2, centres.degreeOf m.1))

/-- The mean of outputs weighted by strengths, 0 if no rule fired. -/
def weightedOutput (outputs : List (α × α)) : α :=
  if outputs.isEmpty || Scalar.total (outputs.map (·.1)) == 0 then 0 else weightedMean outputs

end Graded
