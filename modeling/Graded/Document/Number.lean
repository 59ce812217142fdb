/-
# Numbers from documents

Where a number is wanted, a document may hold one in several ways: as a number, as a truth value,
or as a text that reads as a number.  `number` and `integer` say which of these count, and why
the others do not.  `ofNumeral` gives a numeral its value in any arithmetic.
-/
import Graded.Decimal.Numeral
import Graded.Fault

namespace Graded

namespace Scalar

variable {α : Type} [Scalar α]

/-- The number a numeral stands for. -/
def ofNumeral : Decimal.Numeral → α
  | .decimal negative digits place =>
    let size : α := OfScientific.ofScientific digits (place < 0) place.natAbs
    if negative then -size else size
  | .infinite negative => if negative then -infinity else infinity
  | .undefined => nothing

end Scalar

namespace Document

variable {α : Type} [Scalar α]

/-- The real a document stands for where a real is wanted.  A whole number too great for the
arithmetic has none. -/
def number : Document α → Except (Fault α) α
  | bool b => .ok (if b then 1 else 0)
  | integer n => if Scalar.isInfinite (n : α) then .error .overflow else .ok (n : α)
  | real x => .ok x
  | text s => match Decimal.Numeral.ofText? s with
    | some n => .ok (Scalar.ofNumeral n)
    | none => .error (.notNumeral s)
  | _ => .error .notNumber

/-- The whole number a document stands for where one is wanted.  A real loses what follows its
point. -/
def wholeNumber : Document α → Except (Fault α) Int
  | bool b => .ok (ofBool b)
  | integer n => .ok n
  | real x => match Scalar.truncate x with
    | some n => .ok n
    | none => .error (if Scalar.isInfinite x then .overflow else .noInteger)
  | text s => match Decimal.Numeral.integer? s with
    | some n => .ok n
    | none => .error (.notNumeral s)
  | _ => .error .notNumber

/-- The text a document is, where only a text will do. -/
def asText : Document α → Except (Fault α) String
  | text s => .ok s
  | _ => .error .notText

/-- The items a document goes through when it is gone through one by one: those of a list, the
letters of a text, the names of an object. -/
def items : Document α → Except (Fault α) (List (Document α))
  | list xs => .ok xs
  | text s => .ok (s.toList.map fun c => text c.toString)
  | object ms => .ok (ms.map fun m => text m.1)
  | _ => .error .notList

end Document
end Graded
