/-
# Binary numbers, read exactly

A double is 64 bits.  Every statement about its decimal form is a statement about the exact
number those bits stand for, so this file reads the bits once and for all:

* `Datum.ofBits` splits the patterns into finite numbers, infinities and the undefined value;
* `Binary` is a finite number `± mantissa · 2 ^ exponent`, kept as whole numbers;
* `Binary.fraction` is its size as an exact quotient of naturals;
* `Binary.truncate` is its integer part.

Both zeros are finite numbers with mantissa 0; only the sign tells them apart.
-/

namespace Graded
namespace Decimal

/-! ## 1. Powers of the two bases -/

/-- The number `2 ^ n`. -/
def twoTo (n : Nat) : Nat := Nat.pow 2 n

/-- The number `10 ^ n`. -/
def tenTo (n : Nat) : Nat := Nat.pow 10 n

theorem twoTo_pos (n : Nat) : 0 < twoTo n := Nat.pow_pos (Nat.succ_pos 1)

theorem tenTo_pos (n : Nat) : 0 < tenTo n := Nat.pow_pos (Nat.succ_pos 9)

/-! ## 2. Finite numbers -/

/-- The finite number `mantissa · 2 ^ exponent`, negated when `negative` holds. -/
structure Binary where
  negative : Bool
  mantissa : Nat
  exponent : Int
  deriving Repr, DecidableEq

namespace Binary

/-- The size of the number as numerator and denominator; one of the two is a power of two
times at most the mantissa, and the denominator is never zero. -/
def fraction (b : Binary) : Nat × Nat :=
  if 0 ≤ b.exponent then (b.mantissa * twoTo b.exponent.toNat, 1)
  else (b.mantissa, twoTo (-b.exponent).toNat)

theorem fraction_snd_pos (b : Binary) : 0 < b.fraction.2 := by
  unfold fraction
  split
  · simp
  · exact twoTo_pos _

/-- The integer part: digits after the point are dropped, toward zero. -/
def truncate (b : Binary) : Int :=
  let whole : Int := (b.fraction.1 / b.fraction.2 : Nat)
  if b.negative then -whole else whole

end Binary

/-! ## 3. The 64-bit patterns -/

/-- What a bit pattern stands for. -/
inductive Datum where
  | finite (value : Binary)
  | infinite (negative : Bool)
  | undefined
  deriving Repr, DecidableEq

namespace Datum

/-- Reads a pattern: one sign bit, eleven bits of exponent, 52 bits of fraction.  The all-ones
exponent is kept for infinities (fraction 0) and for the undefined value (any other fraction);
exponent 0 holds the zeros and the subnormal numbers, which have no leading one. -/
def ofBits (bits : UInt64) : Datum :=
  let negative := bits.toNat / twoTo 63 % 2 == 1
  let exponent : Nat := bits.toNat / twoTo 52 % twoTo 11
  let fraction : Nat := bits.toNat % twoTo 52
  if exponent = 2047 then
    if fraction = 0 then infinite negative else undefined
  else if exponent = 0 then
    finite ⟨negative, fraction, -1074⟩
  else
    finite ⟨negative, twoTo 52 + fraction, (exponent : Int) - 1075⟩

/-- The datum a double holds. -/
def ofFloat (x : Float) : Datum := ofBits x.toBits

/-- The integer part of a finite number; the other values have none. -/
def truncate : Datum → Option Int
  | finite b => some b.truncate
  | _ => none

end Datum

example : Datum.ofBits 0 = .finite ⟨false, 0, -1074⟩ := by decide
example : Datum.ofBits 0x3FF0000000000000 = .finite ⟨false, twoTo 52, -52⟩ := by decide
example : Datum.ofBits 0xFFF0000000000000 = .infinite true := by decide
example : Datum.ofBits 0x7FF8000000000000 = .undefined := by decide
example : (Binary.mk true 5 (-1)).truncate = -2 := by decide

end Decimal
end Graded
