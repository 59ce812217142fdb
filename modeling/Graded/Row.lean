/-
# Rows of numbers

Two rows are combined number by number.  A row of one number stands for a row of any length; two
rows of other different lengths do not combine.
-/
import Graded.Fault

namespace Graded
namespace Row

variable {α : Type}

/-- Two rows combined number by number. -/
def combine (f : α → α → α) (xs ys : List α) : Except (Fault α) (List α) :=
  if xs.length = ys.length then .ok (List.zipWith f xs ys)
  else match xs, ys with
    | [x], ys => .ok (ys.map (f x))
    | xs, [y] => .ok (xs.map (f · y))
    | _, _ => .error .lengths

theorem combine_of_length_eq {f : α → α → α} {xs ys : List α} (h : xs.length = ys.length) :
    combine f xs ys = .ok (List.zipWith f xs ys) := by
  simp [combine, h]

end Row
end Graded
