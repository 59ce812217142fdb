/-
# The fewest digits that read back

A double stands for every real that rounds to it.  Among the decimals in that interval this file
picks one with the fewest digits and, of those, the nearest to the exact value.

* `Interval` holds the exact value and the ends of its interval, on one binary scale;
* `digits?` looks through the decimal grids from coarse to fine and tests the two neighbours of
  the value on each; if a grid has any point in the interval, one of these two is in it;
* `Form` says how the digits are then laid out, and `layout` writes them.
-/
import Graded.Decimal.Places

namespace Graded
namespace Decimal

/-! ## 1. The interval of reals that round to a number -/

/-- A positive number `value · 2 ^ scale` with the ends of the interval that rounds to it.  The
ends belong to the interval exactly when `closed` holds. -/
structure Interval where
  low : Nat
  value : Nat
  high : Nat
  scale : Int
  closed : Bool
  deriving Repr

namespace Interval

/-- The interval of a finite double, on a scale four times finer than its own.  The neighbour
below a power of two is twice as near as the one above, except at the bottom of the range. -/
def ofBinary (b : Binary) : Interval where
  low := if b.mantissa = twoTo 52 ∧ -1074 < b.exponent then 4 * b.mantissa - 1
    else 4 * b.mantissa - 2
  value := 4 * b.mantissa
  high := 4 * b.mantissa + 2
  scale := b.exponent - 2
  closed := b.mantissa % 2 == 0

/-- How `digits · 10 ^ place` compares with `n · 2 ^ scale`. -/
def compareAt (digits : Nat) (place : Int) (n : Nat) (scale : Int) : Ordering :=
  let left := digits * (if 0 ≤ place then tenTo place.toNat else 1) *
    (if 0 ≤ scale then 1 else twoTo (-scale).toNat)
  let right := n * (if 0 ≤ scale then twoTo scale.toNat else 1) *
    (if 0 ≤ place then 1 else tenTo (-place).toNat)
  compare left right

/-- The decimal `digits · 10 ^ place` lies in the interval. -/
def holds (i : Interval) (digits : Nat) (place : Int) : Bool :=
  match compareAt digits place i.low i.scale, compareAt digits place i.high i.scale with
  | .gt, .lt => true
  | .eq, _ => i.closed
  | _, .eq => i.closed
  | _, _ => false

/-- The exact value as a quotient of naturals. -/
def fraction (i : Interval) : Nat × Nat := Binary.fraction ⟨false, i.value, i.scale⟩

end Interval

/-! ## 2. The search through the grids -/

/-- A positive decimal `digits · 10 ^ place`. -/
structure Significand where
  digits : Nat
  place : Int
  deriving Repr, DecidableEq

/-- The point of the grid `10 ^ place` that reads back: of two neighbours of the value that do,
the nearer one, and the even one if they are equally near. -/
def onGrid? (i : Interval) (place : Int) : Option Significand :=
  let (num, den) := i.fraction
  let (n, d) := shift num den place
  let below := n / d
  match i.holds below place, i.holds (below + 1) place with
  | true, true => some ⟨roundDiv n d, place⟩
  | true, false => some ⟨below, place⟩
  | false, true => some ⟨below + 1, place⟩
  | false, false => none

/-- The first grid with a point that reads back, from one digit on.  Seventeen digits always
suffice, so the last resort is not reached from a double. -/
def Interval.significand (i : Interval) : Significand :=
  let (num, den) := i.fraction
  let e := exponentOf num den
  match (List.range 17).findSome? fun (k : Nat) => onGrid? i (e - k) with
  | some s => s
  | none => ⟨roundDiv (shift num den (e - 16)).1 (shift num den (e - 16)).2, e - 16⟩

/-! ## 3. Layout -/

/-- How shortest digits are written.  The exponent of the first digit decides between the
positional and the scientific layout. -/
structure Form where
  /-- the least exponent written positionally -/
  least : Int
  /-- the greatest exponent written positionally -/
  most : Int
  /-- what follows a whole number in positional layout -/
  wholeSuffix : String

/-- Drops the zeros at the end of a number. -/
def stripZeros (text : List Char) : List Char := (text.reverse.dropWhile (· == '0')).reverse

/-- The text of a positive decimal. -/
def layout (form : Form) (s : Significand) : String :=
  let all := (toString s.digits).toList
  let e : Int := s.place + all.length - 1
  let ds := match stripZeros all with
    | [] => ['0']
    | ds => ds
  if form.least ≤ e ∧ e ≤ form.most then
    if e < 0 then
      "0." ++ "".pushn '0' (-e - 1).toNat ++ String.ofList ds
    else
      let whole := (e + 1).toNat
      if ds.length ≤ whole then
        (String.ofList ds).pushn '0' (whole - ds.length) ++ form.wholeSuffix
      else
        String.ofList (ds.take whole) ++ "." ++ String.ofList (ds.drop whole)
  else
    String.ofList (ds.take 1) ++ (if ds.length ≤ 1 then "" else ".") ++
      String.ofList (ds.drop 1) ++ exponentText e

/-- The shortest text of a finite number. -/
def shortest (form : Form) (b : Binary) : String :=
  let text := if b.mantissa = 0 then "0" ++ form.wholeSuffix
    else layout form (Interval.ofBinary b).significand
  if b.negative then "-" ++ text else text

end Decimal
end Graded
