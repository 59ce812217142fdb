/-
# Halves of pairs

Beyond the first plane a character is written as a pair of code units, and a text can be made to
hold one half of a pair alone.  Such a half is no character.  It is kept as the character that
stands as many places after it as there are in thirteen planes: the plane it comes to lie in has
no characters of its own.
-/

namespace Graded
namespace Text

/-- How far a half is from the character that it is kept as. -/
def halfDistance : Nat := 0xD0000

/-- The code unit is half of a pair. -/
def isHalf (n : Nat) : Bool := 0xD800 ≤ n && n ≤ 0xDFFF

/-- The character that half of a pair is kept as. -/
def ofHalf (n : Nat) : Char := Char.ofNat (halfDistance + n)

/-- The half of a pair that a character stands for. -/
def half? (c : Char) : Option Nat :=
  let n := c.toNat - halfDistance
  if isHalf n then some n else none

/-- A half is kept. -/
theorem half?_ofHalf {n : Nat} (h : isHalf n = true) : half? (ofHalf n) = some n := by
  simp only [isHalf, Bool.and_eq_true, decide_eq_true_eq] at h
  have hv : (halfDistance + n).isValidChar := by
    right
    simp only [halfDistance]
    omega
  have ht : (ofHalf n).toNat = halfDistance + n := by
    have hc : ofHalf n = Char.ofNatAux (halfDistance + n) hv := dif_pos hv
    rw [hc]
    rfl
  simp [half?, ht, isHalf, h]

/-- Below the second plane every character stands for itself. -/
theorem half?_of_lt {c : Char} (h : c.toNat < 0x10000) : half? c = none := by
  have h0 : c.toNat - halfDistance = 0 := by simp only [halfDistance]; omega
  simp [half?, h0, isHalf]

end Text
end Graded
