/-
# Means

The means used throughout: the weighted mean, which is 0 where the weights add up to nothing, the
plain mean, which is 0 for no values, and the harmonic mean of two scores, which is 0 where they
add up to nothing.
-/
import Graded.Row

namespace Graded

variable {α : Type} [Scalar α]

/-- The mean of values in the proportion of their weights, for pairs of a weight and a value.
Each weight is divided by their total before it is applied. -/
def weightedMean (pairs : List (α × α)) : α :=
  let total := Scalar.total (pairs.map (·.1))
  if total == 0 then 0 else Scalar.total (pairs.map fun p => p.1 / total * p.2)

/-- The weighted mean where weights and values come as rows of their own. -/
def weightedMeanOfRows (weights values : List α) : Except (Fault α) α :=
  let total := Scalar.total weights
  if total == 0 then .ok 0
  else (Row.combine (· * ·) (weights.map (· / total)) values).map Scalar.total

/-- Both forms agree on pairs. -/
theorem weightedMeanOfRows_eq (pairs : List (α × α)) :
    weightedMeanOfRows (pairs.map (·.1)) (pairs.map (·.2)) = .ok (weightedMean pairs) := by
  have h : List.zipWith (· * ·) ((pairs.map (·.1)).map
        (· / Scalar.total (pairs.map (·.1)))) (pairs.map (·.2)) =
      pairs.map fun p => p.1 / Scalar.total (pairs.map (·.1)) * p.2 := by
    simp [List.zipWith_map_left, List.zipWith_map_right, List.zipWith_self]
  unfold weightedMeanOfRows weightedMean
  dsimp only
  split
  · rfl
  · rw [Row.combine_of_length_eq (by simp), h]
    rfl

/-- The mean of the values, 0 for none. -/
def plainMean (values : List α) : α := if values.isEmpty then 0 else Scalar.mean values

/-- The harmonic mean of two scores that are not negative. -/
def harmonicMean (a b : α) : α := if a + b ≤ 0 then 0 else 2.0 * a * b / (a + b)

@[simp] theorem plainMean_nil : plainMean ([] : List α) = 0 := rfl

end Graded
