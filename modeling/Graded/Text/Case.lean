/-
# Upper and lower case

Full case mapping: a letter may become several, and the lower case of a sigma depends on where
it stands.  A sigma at the end of a word takes its final form; it ends a word if a letter with
case stands before it and none after it, marks in between not counting.

* `lower` and `upper` map a whole text;
* `capitalise` gives the first letter its title form and the rest its lower case.
-/
import Graded.Text.Blank
import Graded.Text.CaseTable

namespace Graded
namespace Text

/-! ## 1. Letters -/

/-- The image of a code point under the first run that holds it. -/
def ofRuns (runs : List CaseRun) (n : Nat) : Nat :=
  match runs.find? fun (first, last, stride, _) =>
      first ≤ n && n ≤ last && (n - first) % stride == 0 with
  | some (_, _, _, shift) => ((n : Int) + shift).toNat
  | none => n

/-- The letters listed apart for a code point, else its image under the runs. -/
def image (apart : List (Nat × List Nat)) (runs : List CaseRun) (c : Char) : List Char :=
  match apart.lookup c.toNat with
  | some letters => letters.map Char.ofNat
  | none => [Char.ofNat (ofRuns runs c.toNat)]

/-- The lower case of a letter that stands alone. -/
def lowerLetter (c : Char) : List Char := image lowerApart lowerRuns c

def upperLetter (c : Char) : List Char := image upperApart upperRuns c

/-- The form of a letter at the head of a capitalised word. -/
def titleLetter (c : Char) : List Char := image (titleApart ++ upperApart) upperRuns c

/-! ## 2. The sigma at the end of a word -/

def isCased (c : Char) : Bool := inRanges casedRanges c.toNat

def isIgnorable (c : Char) : Bool := inRanges ignorableRanges c.toNat

/-- The first character that counts has case. -/
def meetsCased (text : List Char) : Bool :=
  match text.dropWhile isIgnorable with
  | c :: _ => isCased c
  | [] => false

/-- A sigma ends a word if the text before it (read backwards) meets a letter with case and the
text after it does not. -/
def endsWord (before after : List Char) : Bool := meetsCased before && !meetsCased after

/-! ## 3. Texts -/

/-- The lower case of a text that follows `before`, which is kept in reverse. -/
def lowerAfter (before : List Char) : List Char → List Char
  | [] => []
  | c :: cs =>
    (if c = 'Σ' then [if endsWord before cs then 'ς' else 'σ'] else lowerLetter c) ++
      lowerAfter (c :: before) cs

def lower (text : List Char) : List Char := lowerAfter [] text

def upper (text : List Char) : List Char := text.flatMap upperLetter

/-- The first letter in its title form and the rest in lower case. -/
def capitalise : List Char → List Char
  | [] => []
  | c :: cs => titleLetter c ++ lowerAfter [c] cs

@[simp] theorem lower_nil : lower [] = [] := rfl

@[simp] theorem upper_nil : upper [] = [] := rfl

theorem upper_append (s t : List Char) : upper (s ++ t) = upper s ++ upper t := by
  simp [upper]

end Text
end Graded
