/-
# Implication and accumulation

A rule that fires with some strength implies its conclusion to that strength: an implication
combines the strength with each degree of the concluded set.  The implied sets are then
accumulated into one output set, degree by degree.

Neither operation lets an undefined degree win over a defined one, where it chooses between two.
-/
import Graded.Scalar

namespace Graded

variable {α : Type} [Scalar α]

/-! ## 1. Implications -/

/-- How a firing strength shapes the concluded set. -/
inductive Implication where
  | mamdani
  | larsen
  | kleeneDienes
  | lukasiewicz
  deriving DecidableEq, Repr

namespace Implication

/-- The implied degree, from the strength of the rule and the degree of the concluded set. -/
def value : Implication → α → α → α
  | mamdani, a, b => Scalar.lesser a b
  | larsen, a, b => a * b
  | kleeneDienes, a, b => Scalar.larger (1 - a) b
  | lukasiewicz, a, b => Scalar.lesser 1 (1 - a + b)

/-- The implications with a name. -/
def catalogue : List (String × Implication) :=
  [("mamdani", mamdani), ("larsen", larsen), ("kleene_dienes", kleeneDienes),
   ("lukasiewicz", lukasiewicz)]

end Implication

/-! ## 2. Accumulations -/

/-- How two implied sets become one. -/
inductive Accumulation where
  | maximum
  | boundedSum
  | probabilisticSum
  deriving DecidableEq, Repr

namespace Accumulation

/-- The accumulated degree. -/
def value : Accumulation → α → α → α
  | maximum, a, b => Scalar.larger a b
  | boundedSum, a, b => Scalar.lesser 1 (a + b)
  | probabilisticSum, a, b => a + b - a * b

/-- The accumulations with a name. -/
def catalogue : List (String × Accumulation) :=
  [("max", maximum), ("sum", boundedSum), ("probor", probabilisticSum)]

end Accumulation
end Graded
