/-
# Conjunction, disjunction and negation of degrees

A triangular norm is a conjunction of degrees with neutral element 1, its conorm a disjunction
with neutral element 0.  The catalogues list those with a name.  Each conorm here is the dual of
the norm beside it: minimum and maximum, product and probabilistic sum, the two bounded ones, and
the two drastic ones.  Hamacher's family has a parameter; at 0 it is the Hamacher product and at
1 the product.

Hamacher's quotient is the one operation here that can divide by zero, and only outside the unit
interval: `fails` says where, `value` is the formula, and `apply` puts the two together.
-/
import Graded.Fault

namespace Graded

variable {α : Type} [Scalar α]

/-! ## 1. Norms -/

/-- The triangular norms. -/
inductive TNorm (α : Type) where
  | minimum
  | product
  | lukasiewicz
  | drastic
  | hamacher (gamma : α)

namespace TNorm

/-- The denominator of Hamacher's quotient. -/
def hamacherDenominator (gamma a b : α) : α :=
  if gamma == 0 then a + b - a * b else gamma + (1 - gamma) * (a + b - a * b)

/-- The conjunction of two degrees by the formula of the norm. -/
def value : TNorm α → α → α → α
  | minimum, a, b => Scalar.least a b
  | product, a, b => a * b
  | lukasiewicz, a, b => Scalar.greatest 0 (a + b - 1)
  | drastic, a, b => if a == 1 then b else if b == 1 then a else 0
  | hamacher gamma, a, b =>
    if gamma == 0 then
      if a == 0 && b == 0 then 0 else a * b / hamacherDenominator gamma a b
    else if hamacherDenominator gamma a b == 0 then 0
    else a * b / hamacherDenominator gamma a b

/-- The formula divides by zero. -/
def fails : TNorm α → α → α → Bool
  | hamacher gamma, a, b =>
    gamma == 0 && !(a == 0 && b == 0) && hamacherDenominator gamma a b == 0
  | _, _, _ => false

/-- The conjunction of two degrees. -/
def apply (t : TNorm α) (a b : α) : Except (Fault α) α :=
  if t.fails a b then .error .division else .ok (t.value a b)

/-- The conjunction of a list of degrees, from 1 on. -/
def all (t : TNorm α) (degrees : List α) : Except (Fault α) α := degrees.foldlM t.apply 1

@[simp] theorem all_nil (t : TNorm α) : t.all [] = .ok 1 := rfl

/-- The norms with a name. -/
def catalogue : List (String × TNorm α) :=
  [("min", minimum), ("product", product), ("lukasiewicz", lukasiewicz), ("drastic", drastic),
   ("hamacher", hamacher 0)]

end TNorm

/-! ## 2. Conorms -/

/-- The triangular conorms. -/
inductive TConorm where
  | maximum
  | probabilisticSum
  | lukasiewicz
  | drastic
  deriving DecidableEq, Repr

namespace TConorm

/-- The disjunction of two degrees. -/
def value : TConorm → α → α → α
  | maximum, a, b => Scalar.greatest a b
  | probabilisticSum, a, b => a + b - a * b
  | lukasiewicz, a, b => Scalar.least 1 (a + b)
  | drastic, a, b => if a == 0 then b else if b == 0 then a else 1

/-- The disjunction of a list of degrees, from 0 on. -/
def any (s : TConorm) (degrees : List α) : α := degrees.foldl s.value 0

@[simp] theorem any_nil (s : TConorm) : s.any ([] : List α) = 0 := rfl

/-- The conorms with a name. -/
def catalogue : List (String × TConorm) :=
  [("max", maximum), ("probabilistic_sum", probabilisticSum), ("lukasiewicz", lukasiewicz),
   ("drastic", drastic)]

end TConorm

/-! ## 3. Negations -/

/-- The complement of a degree. -/
def complement (a : α) : α := 1 - a

/-- Sugeno's negations `(1 - a) / (1 + lam * a)`, for `lam` above -1; at 0 the complement. -/
def sugenoComplement (a lam : α) : Except (Fault α) α :=
  if lam ≤ -1 then .error (.badSugenoParameter lam)
  else if 1 + lam * a == 0 then .error .division
  else .ok ((1 - a) / (1 + lam * a))

end Graded
