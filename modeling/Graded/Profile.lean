/-
# Profiles and their crisp values

A profile is a fuzzy set given by its degrees at the points of a universe.  Five methods turn a
profile into one crisp value: the centre of gravity, the point that halves the area, and the
middle, the last or the first of the points of greatest degree.

Where a profile has no support, every method reports that and answers with the midpoint of the
universe.  The first two look for support in the sum of the degrees, the other three in the
greatest degree.
-/
import Graded.Notice
import Graded.Row

namespace Graded

/-- Degrees at the points of a universe. -/
structure Profile (α : Type) where
  points : List α
  degrees : List α

namespace Profile

variable {α : Type} [Scalar α]

/-! ## 1. Without support -/

/-- The middle between the first and the last point. -/
def midpoint (p : Profile α) : Except (Fault α) α :=
  match p.points.head?, p.points.getLast? with
  | some first, some last => .ok ((first + last) / 2.0)
  | _, _ => .error .emptyProfile

/-- The answer where there is no support. -/
def unsupported (p : Profile α) : Except (Fault α) (Noted α) :=
  p.midpoint.map fun m => ⟨m, [.noSupport]⟩

/-- An answer that needs no notice. -/
def answer (x : Except (Fault α) α) : Except (Fault α) (Noted α) := x.map Noted.quiet

/-! ## 2. Halving a sorted list -/

/-- The first index from `low` up to `high` at which a test fails, found by halving.  It is the
first one if the test, once it fails, fails from there on. -/
def bisect (test : Nat → Bool) (low high : Nat) : Nat :=
  if low < high then
    if test ((low + high) / 2) then bisect test ((low + high) / 2 + 1) high
    else bisect test low ((low + high) / 2)
  else low
termination_by high - low

/-- The order in which an undefined number comes last. -/
def before (a b : α) : Bool := a < b || (Scalar.undefined b && !Scalar.undefined a)

/-- Where `x` belongs in an ascending list: the number of entries before it. -/
def place (x : α) (ascending : List α) : Nat :=
  bisect (fun i => match ascending[i]? with
    | some y => before y x
    | none => false) 0 ascending.length

/-! ## 3. Centre and bisector -/

/-- The centre of gravity: the points weighted by their degrees. -/
def centroid (p : Profile α) : Except (Fault α) (Noted α) :=
  let area := Scalar.total p.degrees
  if area == 0 then p.unsupported
  else answer ((Row.combine (· * ·) p.points p.degrees).map fun moments =>
    Scalar.total moments / area)

/-- The first point at which the degrees so far reach half of their sum. -/
def bisector (p : Profile α) : Except (Fault α) (Noted α) :=
  if Scalar.total p.degrees == 0 then p.unsupported
  else
    let sums := Scalar.cumulate 0 p.degrees
    match sums.getLast? with
    | none => .error .emptyProfile
    | some area => match p.points[place (area / 2.0) sums]? with
      | some x => answer (.ok x)
      | none => .error .emptyProfile

/-! ## 4. The points of greatest degree -/

/-- The points whose degree equals the given one.  There has to be a degree for each point. -/
def pointsAt (p : Profile α) (degree : α) : Except (Fault α) (List α) :=
  if p.points.length = p.degrees.length then
    .ok ((p.points.zip p.degrees).filterMap fun (x, mu) => if mu == degree then some x else none)
  else .error .maskLength

/-- What `choose` makes of the points of greatest degree. -/
def atPeak (choose : List α → Except (Fault α) α) (p : Profile α) :
    Except (Fault α) (Noted α) :=
  match Scalar.peak? p.degrees with
  | none => .error .noPeak
  | some peak =>
    if peak ≤ 0 then p.unsupported
    else answer (do choose (← p.pointsAt peak))

/-- One end of a list of points. -/
def pick (x? : Option α) : Except (Fault α) α :=
  match x? with
  | some x => .ok x
  | none => .error .emptyProfile

def meanOfMaximum (p : Profile α) : Except (Fault α) (Noted α) :=
  p.atPeak fun xs => .ok (Scalar.mean xs)

def largestOfMaximum (p : Profile α) : Except (Fault α) (Noted α) :=
  p.atPeak fun xs => pick xs.getLast?

def smallestOfMaximum (p : Profile α) : Except (Fault α) (Noted α) :=
  p.atPeak fun xs => pick xs.head?

end Profile

/-! ## 5. The methods by name -/

/-- The ways from a profile to a crisp value. -/
inductive Defuzzifier where
  | centroid
  | bisector
  | meanOfMaximum
  | largestOfMaximum
  | smallestOfMaximum
  deriving DecidableEq, Repr

namespace Defuzzifier

variable {α : Type} [Scalar α]

/-- The crisp value of a profile. -/
def apply : Defuzzifier → Profile α → Except (Fault α) (Noted α)
  | centroid => Profile.centroid
  | bisector => Profile.bisector
  | meanOfMaximum => Profile.meanOfMaximum
  | largestOfMaximum => Profile.largestOfMaximum
  | smallestOfMaximum => Profile.smallestOfMaximum

/-- The name of a method. -/
def name : Defuzzifier → String
  | centroid => "centroid"
  | bisector => "bisector"
  | meanOfMaximum => "mom"
  | largestOfMaximum => "lom"
  | smallestOfMaximum => "som"

/-- The methods under their names. -/
def catalogue : List (String × Defuzzifier) :=
  [centroid, bisector, meanOfMaximum, largestOfMaximum, smallestOfMaximum].map fun z => (z.name, z)

/-- Every method is found under its name. -/
theorem lookup_catalogue (z : Defuzzifier) : catalogue.lookup z.name = some z := by
  cases z <;> rfl

end Defuzzifier
end Graded
