/-
# A fixed number of decimal places

Two written forms round to a given number of places: the positional form (`0.70`) and the
scientific form (`1.500000000e+02`).  Both start from an exact quotient of naturals and round
once, to the nearest value that can be written, with a tie going to the even digit.

* `roundDiv` is that rounding;
* `positional` and `scientific` write a quotient;
* `exponentOf` is the decimal exponent of a quotient: the place of its first digit.
-/
import Graded.Decimal.Binary

namespace Graded
namespace Decimal

/-! ## 1. Rounding a quotient -/

/-- The natural nearest to `num / den`; a half goes to the even neighbour. -/
def roundDiv (num den : Nat) : Nat :=
  let q := num / den
  let r := num % den
  if 2 * r < den then q
  else if den < 2 * r then q + 1
  else if q % 2 = 0 then q else q + 1

/-- The rounded value is within half a unit of the quotient. -/
theorem roundDiv_near (num den : Nat) (h : 0 < den) :
    2 * (roundDiv num den * den) ≤ 2 * num + den ∧
      2 * num ≤ 2 * (roundDiv num den * den) + den := by
  have hd : den * (num / den) + num % den = num := Nat.div_add_mod num den
  have hr : num % den < den := Nat.mod_lt num h
  have hc : (num / den) * den = den * (num / den) := Nat.mul_comm _ _
  have hs : (num / den + 1) * den = den * (num / den) + den := by
    rw [Nat.add_mul, Nat.one_mul, hc]
  unfold roundDiv
  dsimp only
  split
  · rw [hc]; omega
  · split
    · rw [hs]; omega
    · split
      · rw [hc]; omega
      · rw [hs]; omega

example : roundDiv 5 2 = 2 ∧ roundDiv 7 2 = 4 ∧ roundDiv 8 3 = 3 := by decide

/-! ## 2. Positional form -/

/-- A natural in decimal digits, with zeros in front up to the given width. -/
def padded (width n : Nat) : String :=
  let digits := toString n
  "".pushn '0' (width - digits.length) ++ digits

/-- `num / den` with exactly `places` digits after the point; no point when there are none. -/
def positional (places num den : Nat) : String :=
  let scaled := roundDiv (num * tenTo places) den
  let whole := toString (scaled / tenTo places)
  if places = 0 then whole else whole ++ "." ++ padded places (scaled % tenTo places)

/-! ## 3. Scientific form -/

/-- Decimal digits in a natural; one for zero. -/
def width (n : Nat) : Nat := (toString n).length

/-- The place of the first digit of a positive quotient: the `e` with
`10 ^ e ≤ num / den < 10 ^ (e + 1)`. -/
def exponentOf (num den : Nat) : Int :=
  if den ≤ num then (width (num / den) : Int) - 1
  else -(width ((den - 1) / num) : Int)

/-- `num / den / 10 ^ e`, as a quotient of naturals. -/
def shift (num den : Nat) (e : Int) : Nat × Nat :=
  if 0 ≤ e then (num, den * tenTo e.toNat) else (num * tenTo (-e).toNat, den)

/-- An exponent with its sign and at least two digits. -/
def exponentText (e : Int) : String :=
  (if e < 0 then "e-" else "e+") ++ padded 2 e.natAbs

/-- `num / den` as one digit, a point, `places` digits and an exponent.  A value that rounds up
to ten takes the next exponent. -/
def scientific (places num den : Nat) : String :=
  if num = 0 then "0." ++ padded places 0 ++ exponentText 0
  else
    let e := exponentOf num den
    let (n, d) := shift num den (e - places)
    let scaled := roundDiv n d
    let (scaled, e) := if tenTo (places + 1) ≤ scaled then (scaled / 10, e + 1) else (scaled, e)
    toString (scaled / tenTo places) ++ "." ++ padded places (scaled % tenTo places) ++
      exponentText e

end Decimal
end Graded
