/-
# Numbers in messages

The written forms of a number that appear in messages, statements and tables.  They are a class
of their own, apart from the arithmetic, because only the numbers that run are ever written.
-/
import Graded.Decimal.Shortest
import Graded.Scalar

namespace Graded

/-- Numbers that can be written: with the fewest digits that read back, or with a fixed number
of places after the point. -/
class Legible (α : Type) where
  shortest : α → String
  places : Nat → α → String

namespace Legible

/-- The shortest form is positional from `0.0001` up to sixteen digits, and a whole number keeps
one place. -/
def form : Decimal.Form := ⟨-4, 15, ".0"⟩

/-- The words for the values that are not finite. -/
def word (negative : Bool) : String := if negative then "-inf" else "inf"

instance double : Legible Float where
  shortest x := match Decimal.Datum.ofFloat x with
    | .finite b => Decimal.shortest form b
    | .infinite negative => word negative
    | .undefined => "nan"
  places n x := match Decimal.Datum.ofFloat x with
    | .finite b =>
      (if b.negative then "-" else "") ++ Decimal.positional n b.fraction.1 b.fraction.2
    | .infinite negative => word negative
    | .undefined => "nan"

end Legible
end Graded
