/-
# The arithmetic of degrees

Everything graded in this library (degrees of membership, truth values, similarities, crisp
inputs and outputs) is computed in one type of numbers.  The computations are written once, over
the class `Scalar`, and used twice:

* at `Float`, where they run, in IEEE double arithmetic and in the written order of operations;
* at any exact field, where theorems about them are stated.

The class therefore asks for operations and for no law but one, that the unit interval has a
length.  In double arithmetic there is one value that differs from itself; `undefined` recognises
it, and each of the operations below says what it does with it, because the order of two
comparands decides that.
-/
import Graded.Decimal.Binary

namespace Graded

/-! ## 1. The class -/

/-- Numbers a degree can be computed in.  `power` is the real power; `truncate` is the integer
part, for a number that has one. -/
class Scalar (α : Type) extends Zero α, One α, Add α, Sub α, Neg α, Mul α, Div α, LT α, LE α,
    BEq α, NatCast α, IntCast α, OfScientific α where
  ltDec : DecidableLT α
  leDec : DecidableLE α
  magnitude : α → α
  exp : α → α
  power : α → α → α
  isInfinite : α → Bool
  truncate : α → Option Int
  zero_lt_one : (0 : α) < 1

instance Scalar.decidableLT {α : Type} [Scalar α] : DecidableLT α := Scalar.ltDec

instance Scalar.decidableLE {α : Type} [Scalar α] : DecidableLE α := Scalar.leDec

/-- A decimal in double arithmetic.  An exponent beyond the range of doubles is not multiplied
out. -/
def Scalar.decimalDouble (digits : Nat) (negative : Bool) (exponent : Nat) : Float :=
  if digits = 0 then 0.0
  else if negative then
    if digits.log2 + 400 < exponent then 0.0 else Float.ofScientific digits true exponent
  else if 400 < exponent then 1.0 / 0.0
  else Float.ofScientific digits false exponent

/-- Double arithmetic. -/
instance Scalar.double : Scalar Float where
  zero := 0.0
  one := 1.0
  ofScientific := Scalar.decimalDouble
  natCast := Float.ofNat
  intCast := Float.ofInt
  ltDec := inferInstance
  leDec := inferInstance
  magnitude := Float.abs
  exp := Float.exp
  power := Float.pow
  isInfinite := Float.isInf
  truncate x := (Decimal.Datum.ofFloat x).truncate
  zero_lt_one := by decide

namespace Scalar

variable {α : Type} [Scalar α]

/-! ## 2. Comparisons -/

/-- The value that differs from itself, if the arithmetic has one. -/
def undefined (x : α) : Bool := x != x

/-- The smaller of two numbers.  The first is kept unless the second is strictly smaller, so an
undefined second comparand is never chosen and an undefined first one always is. -/
def least (a b : α) : α := if b < a then b else a

/-- The greater of two numbers, with the same preference for the first. -/
def greatest (a b : α) : α := if a < b then b else a

/-- The smaller of the two that are defined; undefined only if both are. -/
def lesser (a b : α) : α := if a ≤ b || undefined b then a else b

/-- The greater of the two that are defined; undefined only if both are. -/
def larger (a b : α) : α := if b ≤ a || undefined b then a else b

/-- Cuts a number off at the ends of the unit interval.  An undefined number stays as it is. -/
def clamp (x : α) : α := if x < 0 then 0 else if 1 < x then 1 else x

/-! ## 3. Lists of numbers -/

/-- The sum, added from the left. -/
def total (xs : List α) : α := xs.foldl (· + ·) 0

/-- The arithmetic mean; of the empty list, `0 / 0`. -/
def mean (xs : List α) : α := total xs / (xs.length : α)

/-- The partial sums `x₀`, `x₀ + x₁`, …, each added to the one before. -/
def cumulate (start : α) : List α → List α
  | [] => []
  | x :: xs => (start + x) :: cumulate (start + x) xs

@[simp] theorem cumulate_nil (s : α) : cumulate s [] = [] := rfl

@[simp] theorem cumulate_cons (s x : α) (xs : List α) :
    cumulate s (x :: xs) = (s + x) :: cumulate (s + x) xs := rfl

@[simp] theorem length_cumulate (s : α) (xs : List α) : (cumulate s xs).length = xs.length := by
  induction xs generalizing s with
  | nil => rfl
  | cons x xs ih => simp [ih]

/-- The greatest of a list, where one undefined entry makes the answer undefined. -/
def peak? : List α → Option α
  | [] => none
  | x :: xs => some (xs.foldl (fun m y => if undefined m then m else if y ≤ m then m else y) x)

/-- Descending order, the undefined entries first; equal entries keep their order. -/
def descending (xs : List α) : List α :=
  xs.mergeSort fun a b => undefined a || (!undefined b && decide (b ≤ a))

@[simp] theorem length_descending (xs : List α) : (descending xs).length = xs.length := by
  simp [descending]

/-- An infinite number, in arithmetics that have one. -/
def infinity : α := 1 / 0

/-- The undefined number, in arithmetics that have one. -/
def nothing : α := 0 / 0

end Scalar
end Graded
