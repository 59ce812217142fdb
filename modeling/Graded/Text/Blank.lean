/-
# Blanks

A blank is a character with no ink that separates words: the ASCII blanks and separators, the
Unicode spaces, and the two line separators.  The zero-width characters are not blanks.

`trim` drops the blanks at both ends of a text.
-/

namespace Graded
namespace Text

/-! ## 1. The class -/

/-- The code points of the blanks, as closed ranges. -/
def blankRanges : List (Nat × Nat) :=
  [(0x09, 0x0D), (0x1C, 0x20), (0x85, 0x85), (0xA0, 0xA0), (0x1680, 0x1680), (0x2000, 0x200A),
   (0x2028, 0x2029), (0x202F, 0x202F), (0x205F, 0x205F), (0x3000, 0x3000)]

/-- The code point lies in one of the closed ranges. -/
def inRanges (ranges : List (Nat × Nat)) (n : Nat) : Bool :=
  ranges.any fun r => r.1 ≤ n && n ≤ r.2

def isBlank (c : Char) : Bool := inRanges blankRanges c.toNat

/-- Every character the core library calls whitespace is a blank. -/
theorem isBlank_of_isWhitespace {c : Char} (h : c.isWhitespace = true) : isBlank c = true := by
  simp only [Char.isWhitespace, Bool.or_eq_true, decide_eq_true_eq] at h
  rcases h with ((h | h) | h) | h <;> subst h <;> decide

example : (blankRanges.map fun r => r.2 + 1 - r.1).sum = 29 := by decide

/-! ## 2. Trimming -/

/-- Drops the characters of a class at both ends of a text. -/
def trimOf (p : Char → Bool) (text : List Char) : List Char :=
  ((text.dropWhile p).reverse.dropWhile p).reverse

/-- Drops the blanks at both ends. -/
def trim (text : List Char) : List Char := trimOf isBlank text

@[simp] theorem trim_nil : trim [] = [] := rfl

/-- A text whose ends are outside the class is left as it is. -/
theorem trimOf_of_ends {p : Char → Bool} {text : List Char}
    (hl : ∀ c ∈ text.head?, p c = false) (hr : ∀ c ∈ text.getLast?, p c = false) :
    trimOf p text = text := by
  have keep : ∀ s : List Char, (∀ c ∈ s.head?, p c = false) → s.dropWhile p = s := by
    intro s h
    cases s with
    | nil => rfl
    | cons c cs => simp [List.dropWhile, h c (by simp)]
  unfold trimOf
  rw [keep text hl, keep text.reverse (by simpa using hr), List.reverse_reverse]

example : trim " a b\t ".toList = "a b".toList := by decide

end Text
end Graded
