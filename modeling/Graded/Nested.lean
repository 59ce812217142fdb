/-
# Numbers in nested lists

A computation that is done value by value can be given one value, a list of them, or lists of
lists, and answers in the same arrangement.  The arrangement has to be regular: the lists at one
depth are all of one length.
-/
import Graded.Document.Number
import Graded.Row

namespace Graded

/-- Values arranged in nested lists. -/
inductive Nested (α : Type) where
  | one (value : α)
  | many (items : List (Nested α))

namespace Nested

variable {α β : Type}

mutual

/-- The same arrangement with each value replaced. -/
def map (f : α → β) : Nested α → Nested β
  | one x => one (f x)
  | many xs => many (mapItems f xs)

/-- `map` on each item. -/
def mapItems (f : α → β) : List (Nested α) → List (Nested β)
  | [] => []
  | x :: xs => map f x :: mapItems f xs

end

mutual

/-- The lengths of the lists from the outermost in, if the arrangement is regular. -/
def extent? : Nested α → Option (List Nat)
  | one _ => some []
  | many [] => some [0]
  | many (x :: xs) => do
    let e ← extent? x
    if allOf e xs then some ((xs.length + 1) :: e) else none

/-- Every item has the given lengths. -/
def allOf (e : List Nat) : List (Nested α) → Bool
  | [] => true
  | x :: xs => extent? x == some e && allOf e xs

end

mutual

/-- The values from left to right. -/
def values : Nested α → List α
  | one x => [x]
  | many xs => valuesOfItems xs

/-- The values of each item in turn. -/
def valuesOfItems : List (Nested α) → List α
  | [] => []
  | x :: xs => values x ++ valuesOfItems xs

end

variable [Scalar α]

mutual

/-- The arrangement of a document.  Null stands for the undefined number. -/
def read : Document α → Except (Fault α) (Nested α)
  | .null => .ok (one Scalar.nothing)
  | .list xs => (readItems xs).map many
  | d => d.number.map one

/-- `read` on each item. -/
def readItems : List (Document α) → Except (Fault α) (List (Nested α))
  | [] => .ok []
  | x :: xs => do
    let y ← read x
    let ys ← readItems xs
    return y :: ys

end

/-- A regular arrangement of numbers. -/
def ofDocument (d : Document α) : Except (Fault α) (Nested α) := do
  let n ← read d
  if n.extent?.isSome then return n else throw .ragged

/-- Two arrangements combined value by value: one value goes with every value of the other
side, and two rows are combined as rows. -/
def combine (f : α → α → α) : Nested α → Nested α → Except (Fault α) (Nested α)
  | one x, n => .ok (n.map (f x))
  | n, one y => .ok (n.map (f · y))
  | many xs, many ys => do
    return many ((← Row.combine f (valuesOfItems xs) (valuesOfItems ys)).map one)

/-- The one number of an arrangement that has only one. -/
def single (d : Document α) : Except (Fault α) α := do
  match (← ofDocument d).values with
  | [x] => return x
  | _ => throw .notNumber

/-- A plain list of numbers. -/
def row (d : Document α) : Except (Fault α) (List α) := do
  match ← ofDocument d with
  | many xs => return valuesOfItems xs
  | one _ => throw .notList

end Nested
end Graded
