/-
# Operands

An operation on degrees can be given a single number or a row of numbers.  `combine` goes through
rows number by number, and a single number goes with every number of a row.

A condition on an operand has an answer only if there is one number to ask.
-/
import Graded.Row

namespace Graded

/-- A number, or a row of numbers. -/
inductive Operand (α : Type) where
  | one (value : α)
  | row (values : List α)
  deriving Repr

namespace Operand

variable {α β : Type}

/-! ## 1. Numbers of an operand -/

/-- The operand of a list of numbers.  A list of one stands for the number. -/
def ofList : List α → Operand α
  | [x] => one x
  | xs => row xs

/-- The numbers of an operand. -/
def toList : Operand α → List α
  | one x => [x]
  | row xs => xs

@[simp] theorem toList_ofList (xs : List α) : (ofList xs).toList = xs := by
  match xs with
  | [] => rfl
  | [_] => rfl
  | _ :: _ :: _ => rfl

/-- The number of an operand that has one. -/
def number : Operand α → Except (Fault β) α
  | one x => .ok x
  | row [x] => .ok x
  | row _ => .error .notNumber

/-! ## 2. Going through operands -/

/-- The operand with each number replaced. -/
def map (f : α → α) : Operand α → Operand α
  | one x => one (f x)
  | row xs => row (xs.map f)

/-- Two operands combined number by number. -/
def combine (f : α → α → α) : Operand α → Operand α → Except (Fault α) (Operand α)
  | one x, one y => .ok (one (f x y))
  | one x, row ys => .ok (row (ys.map (f x)))
  | row xs, one y => .ok (row (xs.map (f · y)))
  | row xs, row ys => (Row.combine f xs ys).map row

@[simp] theorem combine_one (f : α → α → α) (x y : α) :
    combine f (one x) (one y) = .ok (one (f x y)) := rfl

/-! ## 3. Conditions -/

/-- Whether the number of an operand meets a condition. -/
def decide (test : α → Bool) : Operand α → Except (Fault β) Bool
  | one x => .ok (test x)
  | row [x] => .ok (test x)
  | row _ => .error .undecided

/-- Whether the numbers of two operands are in a relation. -/
def decideBoth (test : α → α → Bool) (a b : Operand α) : Except (Fault β) Bool :=
  match a.toList, b.toList with
  | [x], [y] => .ok (test x y)
  | _, _ => .error .undecided

end Operand
end Graded
