/-
# Numbers of a size

A number can be held in a set number of bits.  A whole number has to fit, or there is an overflow;
a real is rounded to the nearest number of its size, of two to the one with the even last bit, and
becomes infinite beyond the greatest.

In a document a sized number is an object with the one member `np`: a list of the name of the size
and the number.  `unsized` puts the plain number in its place.
-/
import Graded.Document.Number
import Graded.Document.Shown

namespace Graded
namespace Document

/-! ## 1. Sizes -/

/-- What a value of a set size is. -/
inductive Size where
  | truth
  | text
  /-- a whole number of so many bits, one of which may be for the sign -/
  | whole (signed : Bool) (bits : Nat)
  | half
  | single
  | double
  deriving DecidableEq, Repr

namespace Size

/-- The sizes by name. -/
def named : List (String × Size) :=
  [("bool_", truth), ("str_", text), ("int8", whole true 8), ("int16", whole true 16),
   ("int32", whole true 32), ("int64", whole true 64), ("uint8", whole false 8),
   ("uint16", whole false 16), ("uint32", whole false 32), ("uint64", whole false 64),
   ("float16", half), ("float32", single), ("float64", double), ("longdouble", double)]

/-- A whole number fits into so many bits. -/
def fits (signed : Bool) (bits : Nat) (n : Int) : Bool :=
  let limit := Int.ofNat (Decimal.twoTo (if signed then bits - 1 else bits))
  (if signed then -limit else 0) ≤ n && n < limit

example : fits true 8 (-128) ∧ ¬ fits true 8 128 ∧ fits false 8 255 := by decide

/-- The nearest number with eleven bits of digits and a place not below 24. -/
def toHalf (x : Float) : Float :=
  match Decimal.Datum.ofFloat x with
  | .finite b =>
    let place := max (-24) (b.exponent + b.mantissa.log2 - 10)
    let shift := 6755399441055744.0
    let rounded := ((x.scaleB (-place) + shift) - shift).scaleB place
    if 65504.0 < rounded.abs then x / 0.0 else rounded
  | _ => x

/-- The value in a size. -/
def hold (s : Size) (d : Document Float) : Except (Fault Float) (Document Float) :=
  match s with
  | truth => .ok (.bool d.holds)
  | text => .ok (.text d.plain)
  | whole signed bits => do
    let n ← d.wholeNumber
    if fits signed bits n then return .integer n else throw .overflow
  | half => return .real (toHalf (← real d))
  | single => return .real (← real d).toFloat32.toFloat
  | double => return .real (← real d)
where
  /-- Null is the undefined number. -/
  real : Document Float → Except (Fault Float) Float
    | .null => .ok Scalar.nothing
    | d => d.number

end Size

/-! ## 2. Sized numbers in documents -/

/-- A sized number, if the members of an object are those of one. -/
def sized? : List (String × Document Float) → Option (String × Document Float)
  | [("np", .list [.text size, x])] => some (size, x)
  | _ => none

mutual

/-- The document with a plain number for every sized one.  A size without a name holds what no
record can hold. -/
def unsized : Document Float → Except (Fault Float) (Document Float)
  | .list xs => do return .list (← unsizedItems xs)
  | .object ms => match sized? ms with
    | some (size, x) => match Size.named.lookup size with
      | some s => s.hold x
      | none => .error .notNumber
    | none => do return .object (← unsizedMembers ms)
  | d => .ok d

/-- `unsized` on each item. -/
def unsizedItems : List (Document Float) → Except (Fault Float) (List (Document Float))
  | [] => .ok []
  | x :: xs => do return (← unsized x) :: (← unsizedItems xs)

/-- `unsized` on each member. -/
def unsizedMembers : List (String × Document Float) →
    Except (Fault Float) (List (String × Document Float))
  | [] => .ok []
  | (k, x) :: ms => do return (k, ← unsized x) :: (← unsizedMembers ms)

end

end Document
end Graded
