/-
# Graded names

Fuzzifying a value, or asking how well each quantifier fits a proportion, gives a degree to each
of a list of names.  This file holds what is then asked of such a list, wherever it came from:

* `degreeOf`: the degree of one name, 0 if it has none;
* `strongest`: the first name of greatest degree;
* `reaching`: the names that reach a threshold, in their order;
* `ranked`: all names, the greatest degree first, names of one degree in their order.
-/
import Graded.Keyed
import Graded.Scalar

namespace Graded

/-- Degrees under names. -/
abbrev Grading (α : Type) := Keyed α

namespace Grading

variable {α : Type} [Scalar α]

/-- The degree given to a name; 0 if none is given. -/
def degreeOf (grades : Grading α) (name : String) : α := (grades.lookup name).getD 0

@[simp] theorem degreeOf_nil (name : String) : degreeOf ([] : Grading α) name = 0 := rfl

/-- One step of the search for the strongest: a name displaces another only by a strictly
greater degree. -/
def stronger (best next : String × α) : String × α := if best.2 < next.2 then next else best

/-- The first name of greatest degree.  Where no degree is positive the fallback is returned,
with degree 0. -/
def strongest (fallback : String) (grades : Grading α) : String × α :=
  grades.foldl stronger (fallback, 0)

/-- The names whose degree reaches a threshold. -/
def reaching (threshold : α) (grades : Grading α) : Grading α :=
  grades.filter fun g => threshold ≤ g.2

/-- The names by descending degree. -/
def ranked (grades : Grading α) : Grading α := grades.mergeSort fun g h => decide (h.2 ≤ g.2)

@[simp] theorem strongest_nil (fallback : String) :
    strongest fallback ([] : Grading α) = (fallback, 0) := rfl

@[simp] theorem reaching_nil (threshold : α) : reaching threshold ([] : Grading α) = [] := rfl

theorem mem_reaching {threshold : α} {grades : Grading α} {g : String × α} :
    g ∈ reaching threshold grades ↔ g ∈ grades ∧ threshold ≤ g.2 := by
  simp [reaching]

theorem ranked_perm (grades : Grading α) : (ranked grades).Perm grades :=
  List.mergeSort_perm _ _

end Grading
end Graded
