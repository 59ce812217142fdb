/-
# Fuzzy variables

A fuzzy variable covers a domain with a handful of overlapping fuzzy sets.  The domain is
informational: it says where the variable is sampled, and is not enforced on its values.

A variable has at least one set, its sets have distinct names, and its domain has a length.
`define` is the way from given names and sets to a variable; what it refuses, it names.
-/
import Graded.Document.Number
import Graded.Document.Shown
import Graded.Grading
import Graded.Shape.Definition

namespace Graded

/-! ## 1. Fuzzy sets -/

/-- A named shape. -/
structure FuzzySet (α : Type) where
  name : String
  shape : Shape α

namespace FuzzySet

variable {α : Type} [Scalar α]

/-- The domain that every set is listed with. -/
def span : α × α := (0, 1)

/-- The degrees of a list of values. -/
def sample (s : FuzzySet α) (xs : List α) : List α := xs.map s.shape.degree

@[simp] theorem length_sample (s : FuzzySet α) (xs : List α) :
    (s.sample xs).length = xs.length := by
  simp [sample]

/-- The degrees of a list of values, unless the shape is beyond the arithmetic. -/
def sample? (s : FuzzySet α) (xs : List α) : Except (Fault α) (List α) :=
  if s.shape.tooWide then .error .overflow else .ok (s.sample xs)

end FuzzySet

/-! ## 2. Variables -/

/-- A named domain covered by fuzzy sets. -/
structure Variable (α : Type) [Scalar α] where
  name : String
  low : α
  high : α
  sets : List (FuzzySet α)
  covered : sets ≠ []
  distinct : (sets.map (·.name)).Nodup
  proper : low < high

namespace Variable

variable {α : Type} [Scalar α]

/-- The names of the sets, in order. -/
def setNames (v : Variable α) : List String := v.sets.map (·.name)

/-- The first set, which wins whatever is not decided otherwise. -/
def first (v : Variable α) : FuzzySet α := v.sets.head v.covered

/-- The set of a name. -/
def set? (v : Variable α) (name : String) : Option (FuzzySet α) :=
  v.sets.find? fun s => s.name == name

/-- The set of a name, or the fault that there is none. -/
def set (v : Variable α) (name : String) : Except (Fault α) (FuzzySet α) :=
  match v.set? name with
  | some s => .ok s
  | none => .error (.noSet v.name name)

/-- The middle of the domain. -/
def midpoint (v : Variable α) : α := (v.low + v.high) / 2.0

/-- The names that occur more than once, each once, sorted. -/
def repeated (names : List String) : List String :=
  ((names.filter fun n => 1 < names.count n).eraseDups).mergeSort fun a b => decide (a ≤ b)

/-- The ends of a domain given as a list: its first two numbers. -/
def bounds (domain : List (Document α)) : Except (Fault α) (α × α) := do
  match domain with
  | [] => throw .boundMissing
  | [low] =>
    let _ ← low.number
    throw .boundMissing
  | low :: high :: _ => return (← low.number, ← high.number)

/-- The variable with the given name, domain and sets. -/
def define (name : String) (domain : List (Document α)) (sets : List (FuzzySet α)) :
    Except (Fault α) (Variable α) :=
  if covered : sets = [] then .error (.noSets name)
  else if distinct : (sets.map (·.name)).Nodup then do
    let (low, high) ← bounds domain
    if proper : low < high then return ⟨name, low, high, sets, covered, distinct, proper⟩
    else throw (.emptyDomain name)
  else .error (.duplicateSets name (repeated (sets.map (·.name))))

/-- A variable as written in messages. -/
def text [Legible α] (v : Variable α) : String :=
  "FuzzyVariable(" ++ Text.quoted v.name ++ ", " ++ Document.group [v.low, v.high] ++ ", sets=" ++
    Text.quotedList v.setNames ++ ")"

end Variable

/-! ## 3. Sampling -/

namespace Scalar

variable {α : Type} [Scalar α]

/-- The ends of `n` equal steps from one number to another.  The last point is the far end
itself, not the sum of the steps.  Where a step is too small for the arithmetic, the points are
parts of the whole length. -/
def grid (low high : α) : Nat → List α
  | 0 => [0 * (high - low) + low]
  | n + 1 =>
    let count : α := ((n + 1 : Nat) : α)
    let step := (high - low) / count
    let point := fun (i : Nat) =>
      if step == 0 then (i : α) / count * (high - low) + low else (i : α) * step + low
    (List.range (n + 1)).map point ++ [high]

@[simp] theorem length_grid (low high : α) (n : Nat) : (grid low high n).length = n + 1 := by
  cases n <;> simp [grid]

end Scalar

namespace Variable

variable {α : Type} [Scalar α]

/-- The domain in equal steps. -/
def points (v : Variable α) (steps : Nat) : List α := Scalar.grid v.low v.high steps

@[simp] theorem length_points (v : Variable α) (steps : Nat) :
    (v.points steps).length = steps + 1 := Scalar.length_grid _ _ _

/-- The domain in a number of steps that may be negative: one step too few leaves no point, and
fewer make no sense. -/
def points? (v : Variable α) (steps : Int) : Except (Fault α) (List α) :=
  if 0 ≤ steps then .ok (v.points steps.toNat)
  else if steps = -1 then .ok []
  else .error .tooFewPoints

/-! ## 4. Fuzzifying -/

/-- The degree of a value in each set, in the order of the sets. -/
def fuzzify (v : Variable α) (x : α) : Grading α := v.sets.map fun s => (s.name, s.shape.degree x)

@[simp] theorem keys_fuzzify (v : Variable α) (x : α) :
    Keyed.keys (v.fuzzify x) = v.setNames := by
  simp [fuzzify, Keyed.keys, setNames]

/-- Some set of the variable is beyond the arithmetic, so that no value can be fuzzified. -/
def tooWide (v : Variable α) : Bool := v.sets.any (·.shape.tooWide)

/-- The degree of a value in each set, unless one of them is beyond the arithmetic. -/
def fuzzify? (v : Variable α) (x : α) : Except (Fault α) (Grading α) :=
  if v.tooWide then .error .overflow else .ok (v.fuzzify x)

/-- The set of greatest degree; the first one wins ties, and also where no degree is positive. -/
def dominant (v : Variable α) (x : α) : String × α :=
  Grading.strongest v.first.name (v.fuzzify x)

/-- The sets that reach a threshold, the greatest degree first. -/
def terms (v : Variable α) (x threshold : α) : Grading α :=
  Grading.ranked (Grading.reaching threshold (v.fuzzify x))

end Variable
end Graded
