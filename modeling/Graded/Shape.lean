/-
# Shapes of fuzzy sets

A shape turns a crisp value into a degree of membership between 0 and 1.  Five of the shapes are
piecewise linear: they rise between two points, hold 1 on a core and fall between two points.
The other three are smooth.

`raw` is the shape as its formula gives it, `degree` cuts that off at 0 and 1.  A piecewise
linear shape divides only by the width of a slope on which the value lies, so a slope of width 0
is a step: no division happens there, and the point on the edge belongs to the core.

An undefined value lies on no slope and in no core, and gets what is left.
-/
import Graded.Scalar

namespace Graded

/-- The shapes, each with its parameters from left to right. -/
inductive Shape (α : Type) where
  /-- rises from `a`, is 1 at `b`, falls to `c` -/
  | triangular (a b c : α)
  /-- rises from `a`, is 1 from `b` to `c`, falls to `d` -/
  | trapezoidal (a b c d : α)
  /-- the bell curve around `centre` -/
  | gaussian (centre spread : α)
  /-- 1 at `centre` and one half at the distance `width`, the steeper the greater `slope` -/
  | bell (width slope centre : α)
  /-- the logistic curve, one half at `centre` -/
  | sigmoid (slope centre : α)
  /-- is 1 up to `a`, falls to `b` -/
  | leftShoulder (a b : α)
  /-- rises from `a`, is 1 from `b` on -/
  | rightShoulder (a b : α)
  /-- a rising shoulder up to `b`, 1 up to `c`, a falling shoulder after it -/
  | plateau (a b c d : α)

namespace Shape

variable {α : Type} [Scalar α]

/-! ## 1. Slopes and cores -/

/-- The height at `x` of a line that rises from 0 at `a` to 1 at `b`. -/
def rise (a b x : α) : α := (x - a) / (b - a)

/-- The height at `x` of a line that falls from 1 at `a` to 0 at `b`. -/
def fall (a b x : α) : α := (b - x) / (b - a)

/-- `x` lies strictly between `a` and `b`. -/
def between (a x b : α) : Bool := a < x && x < b

theorem between_iff {a x b : α} : between a x b = true ↔ a < x ∧ x < b := by simp [between]

/-- 1 at a point and 0 elsewhere: what a smooth shape of width 0 becomes. -/
def spike (c x : α) : α := if x == c then 1 else 0

/-! ## 2. The shapes -/

def triangularRaw (a b c x : α) : α :=
  if between b x c then fall b c x
  else if x == b then 1
  else if between a x b then rise a b x
  else 0

def trapezoidalRaw (a b c d x : α) : α :=
  if between c x d then fall c d x
  else if between a x b then rise a b x
  else if b ≤ x && x ≤ c then 1
  else 0

def leftShoulderRaw (a b x : α) : α :=
  if x ≤ a then 1
  else if between a x b then fall a b x
  else 0

def rightShoulderRaw (a b x : α) : α :=
  if b ≤ x then 1
  else if x ≤ a then 0
  else if between a x b then rise a b x
  else 1

def plateauRaw (a b c d x : α) : α :=
  if x ≤ b then Scalar.clamp (rightShoulderRaw a b x)
  else if x ≤ c then 1
  else Scalar.clamp (leftShoulderRaw c d x)

def gaussianRaw (c spread x : α) : α :=
  if spread == 0 then spike c x
  else Scalar.exp (-((x - c) * (x - c)) / (2.0 * (spread * spread)))

def bellRaw (width slope c x : α) : α :=
  if width == 0 then spike c x
  else 1 / (1 + Scalar.power (Scalar.magnitude ((x - c) / width)) (2.0 * slope))

/-- The logistic function. -/
def logistic (t : α) : α := 1 / (1 + Scalar.exp (-t))

def sigmoidRaw (slope c x : α) : α := logistic (slope * (x - c))

/-- The value of the formula of a shape. -/
def raw : Shape α → α → α
  | triangular a b c, x => triangularRaw a b c x
  | trapezoidal a b c d, x => trapezoidalRaw a b c d x
  | gaussian c s, x => gaussianRaw c s x
  | bell w s c, x => bellRaw w s c x
  | sigmoid s c, x => sigmoidRaw s c x
  | leftShoulder a b, x => leftShoulderRaw a b x
  | rightShoulder a b, x => rightShoulderRaw a b x
  | plateau a b c d, x => plateauRaw a b c d x

/-- The degree of membership of a value. -/
def degree (s : Shape α) (x : α) : α := Scalar.clamp (s.raw x)

/-- The square of the spread is beyond the arithmetic, so the bell curve cannot be computed. -/
def tooWide : Shape α → Bool
  | gaussian _ s => !Scalar.isInfinite s && Scalar.isInfinite (s * s)
  | _ => false

end Shape
end Graded
