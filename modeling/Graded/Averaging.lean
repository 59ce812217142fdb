/-
# Averages of degrees

Operators between conjunction and disjunction.

* An ordered weighted average gives its weights to the values in descending order, so the
  weights say how far the operator leans to the smallest or to the greatest value.
* The compensatory conjunction blends the product of the values with their mean, by exponents
  that add up to 1.
-/
import Graded.Fault

namespace Graded

variable {α : Type} [Scalar α]

/-! ## 1. Ordered weighted averages -/

/-- Where the weights of an average lie. -/
inductive Leaning where
  /-- on the smallest values -/
  | andlike
  /-- on the greatest values -/
  | orlike
  /-- on all alike -/
  | even
  deriving DecidableEq, Repr

namespace Leaning

/-- The leaning of a name; any other name leans nowhere. -/
def ofName (name : String) : Leaning :=
  if name = "andlike" then andlike else if name = "orlike" then orlike else even

@[simp] theorem ofName_andlike : ofName "andlike" = andlike := rfl

@[simp] theorem ofName_orlike : ofName "orlike" = orlike := rfl

/-- The weight of the `i`-th greatest of `n` values. -/
def weight (n i : Nat) : Leaning → α
  | andlike => 2.0 * ((i : α) + 1) / ((n * (n + 1) : Nat) : α)
  | orlike => 2.0 * ((n : α) - (i : α)) / ((n * (n + 1) : Nat) : α)
  | even => 1 / (n : α)

/-- The weights for `n` values, from the greatest value down. -/
def weights (n : Nat) (l : Leaning) : List α := (List.range n).map fun i => l.weight n i

@[simp] theorem length_weights (n : Nat) (l : Leaning) :
    (l.weights n : List α).length = n := by
  simp [weights]

end Leaning

/-- The ordered weighted average.  Weights that are not given, or are not as many as the values,
are even; the average of nothing is 0. -/
def orderedAverage (values : List α) (weights? : Option (List α)) : α :=
  if values.isEmpty then 0
  else
    let weights := match weights? with
      | some ws => if ws.length = values.length then ws else Leaning.even.weights values.length
      | none => Leaning.even.weights values.length
    Scalar.total (List.zipWith (· * ·) weights (Scalar.descending values))

/-! ## 2. Compensation -/

namespace Scalar

/-- The number is whole. -/
def isWhole (x : α) : Bool :=
  match truncate x with
  | some n => x == (n : α)
  | none => false

/-- A real power.  Zero has no negative powers, a power too great for the arithmetic is refused,
and a negative base with a broken exponent has no real power at all. -/
def realPower? (base e : α) : Except (Fault α) (Option α) :=
  if e == 0 || undefined base || undefined e || isInfinite base || isInfinite e then
    .ok (some (power base e))
  else if base == 0 && e < 0 then .error .division
  else if base < 0 && !isWhole e then .ok none
  else if isInfinite (power base e) then .error .overflow
  else .ok (some (power base e))

end Scalar

/-- The product of the values to the power `1 - gamma` times their mean to the power `gamma`; 1
for no values. -/
def compensatoryAnd (values : List α) (gamma : α) : Except (Fault α) α :=
  if values.isEmpty then .ok 1
  else do
    let product := values.foldl (· * ·) 1
    let first ← Scalar.realPower? product (1 - gamma)
    let second ← Scalar.realPower? (Scalar.mean values) gamma
    match first, second with
    | some p, some m => return p * m
    | _, _ => throw .noRealPower

end Graded
