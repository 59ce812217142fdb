/-
# Reading documents

The written form of a document is JSON with three more words for the reals that JSON lacks.  A
number with a point or an exponent is a real, any other a whole number.  A member written twice
keeps its first place and its last value.

Each reader takes what it wants from the front of the text and returns the rest, or fails.  The
readers of values call each other with a bound that the length of the text supplies, and count the
levels that are left: a text may not be nested deeper than `deepest`.  A whole number may not have
more digits than `mostDigits`.
-/
import Graded.Document
import Graded.Document.Number
import Graded.Text.Half

namespace Graded
namespace Document

variable {α : Type} [Scalar α]

/-! ## 1. Blanks, words and numbers -/

/-- The blanks between the parts of a document. -/
def isGap (c : Char) : Bool := c == ' ' || c == '\t' || c == '\n' || c == '\r'

def skipGaps (cs : List Char) : List Char := cs.dropWhile isGap

/-- The rest of the text after the given word. -/
def afterWord? : List Char → List Char → Option (List Char)
  | [], cs => some cs
  | w :: ws, c :: cs => if w = c then afterWord? ws cs else none
  | _ :: _, [] => none

/-- Digits in front of a text, and what follows them. -/
def digitsOf (cs : List Char) : List Char × List Char :=
  (cs.takeWhile Char.isDigit, cs.dropWhile Char.isDigit)

/-- The value of digits. -/
def valueOf (digits : List Char) : Nat :=
  digits.foldl (fun n c => 10 * n + (c.toNat - '0'.toNat)) 0

/-- The digits after a point, if there is a point with a digit after it. -/
def fractionOf? : List Char → Option (List Char × List Char)
  | '.' :: cs => match digitsOf cs with
    | ([], _) => none
    | found => some found
  | _ => none

/-- The exponent after a mark, if there is one with a digit in it. -/
def exponentOf? : List Char → Option (Int × List Char)
  | c :: cs =>
    if c == 'e' || c == 'E' then
      let (negative, rest) := match cs with
        | '-' :: r => (true, r)
        | '+' :: r => (false, r)
        | r => (false, r)
      match digitsOf rest with
      | ([], _) => none
      | (ds, rest) => some (if negative then -(valueOf ds : Int) else valueOf ds, rest)
    else none
  | [] => none

/-- The most digits of a whole number. -/
def mostDigits : Nat := 4300

/-- The whole digits in front of a text, and what follows them.  A zero in front stands alone. -/
def wholeOf : List Char → List Char × List Char
  | '0' :: cs => (['0'], cs)
  | cs => digitsOf cs

/-- A number without its sign, from its whole digits on. -/
def readUnsigned (negative : Bool) (cs : List Char) : Except (Fault α) (Document α × List Char) :=
  match wholeOf cs with
  | ([], _) => .error .malformed
  | (ds, rest) =>
    let (after, rest₁) := (fractionOf? rest).getD ([], rest)
    let (e, rest₂) := (exponentOf? rest₁).getD (0, rest₁)
    if after.isEmpty && (exponentOf? rest₁).isNone then
      if mostDigits < ds.length then .error .tooManyDigits
      else .ok (integer (if negative then -(valueOf ds : Int) else valueOf ds), rest)
    else
      .ok (real (Scalar.ofNumeral (.decimal negative (valueOf (ds ++ after))
        (e - after.length))), rest₂)

/-- A number, or one of the words for the reals that are not finite. -/
def readNumber (cs : List Char) : Except (Fault α) (Document α × List Char) :=
  match cs with
  | '-' :: rest => match afterWord? "Infinity".toList rest with
    | some r => .ok (real (-Scalar.infinity), r)
    | none => readUnsigned true rest
  | cs => readUnsigned false cs

/-! ## 2. Texts -/

/-- Four hexadecimal digits in front of a text. -/
def unit? : List Char → Option (Nat × List Char)
  | a :: b :: c :: d :: rest => do
    let a ← Text.hexDigit? a
    let b ← Text.hexDigit? b
    let c ← Text.hexDigit? c
    let d ← Text.hexDigit? d
    return (((a * 16 + b) * 16 + c) * 16 + d, rest)
  | _ => none

/-- The character of one code unit.  Half a pair has one to stand for it. -/
def ofUnit (n : Nat) : Char := if Text.isHalf n then Text.ofHalf n else Char.ofNat n

/-- The character of an escape by code units, from the first unit on.  Two units that form a
pair give one character. -/
def escapedUnit? (cs : List Char) : Option (Char × List Char) := do
  let (high, rest) ← unit? cs
  let single := (ofUnit high, rest)
  if 0xD800 ≤ high && high ≤ 0xDBFF then
    match rest with
    | '\\' :: 'u' :: more => match unit? more with
      | some (low, rest) =>
        if 0xDC00 ≤ low && low ≤ 0xDFFF then
          return (Char.ofNat (0x10000 + (high - 0xD800) * 0x400 + (low - 0xDC00)), rest)
        else return single
      | none => return single
    | _ => return single
  else return single

/-- The character that an escape by one letter stands for. -/
def escapedLetter? (c : Char) : Option Char :=
  match c with
  | '"' => some '"'
  | '\\' => some '\\'
  | '/' => some '/'
  | 'b' => some '\x08'
  | 'f' => some '\x0c'
  | 'n' => some '\n'
  | 'r' => some '\r'
  | 't' => some '\t'
  | _ => none

/-- The rest of a text whose opening quote has been read, up to its closing quote.  `seen` holds
the characters so far in reverse, and the bound is the length of what is left. -/
def readQuoted : Nat → List Char → List Char → Option (String × List Char)
  | 0, _, _ => none
  | bound + 1, seen, cs =>
    match cs with
    | '"' :: rest => some (String.ofList seen.reverse, rest)
    | '\\' :: 'u' :: rest => match escapedUnit? rest with
      | some (c, rest) => readQuoted bound (c :: seen) rest
      | none => none
    | '\\' :: c :: rest => match escapedLetter? c with
      | some c => readQuoted bound (c :: seen) rest
      | none => none
    | '\\' :: [] => none
    | c :: rest => if c.toNat < 0x20 then none else readQuoted bound (c :: seen) rest
    | [] => none

/-- A text with its opening quote. -/
def readText : List Char → Option (String × List Char)
  | '"' :: rest => readQuoted (rest.length + 1) [] rest
  | _ => none

/-! ## 3. Values -/

/-- How many lists and objects may stand inside each other. -/
def deepest : Nat := 988

/-- What an optional reader has found, or the fault of a text that is no document. -/
def ofOption {β : Type} : Option (β × List Char) → Except (Fault α) (β × List Char)
  | some r => .ok r
  | none => .error .malformed

/-- The value of a word at the front of a text. -/
def readWord (word : String) (value : Document α) (cs : List Char) :
    Except (Fault α) (Document α × List Char) :=
  ofOption ((afterWord? word.toList cs).map (value, ·))

mutual

/-- A value from the front of a text, with so many levels left. -/
def readValue : Nat → Nat → List Char → Except (Fault α) (Document α × List Char)
  | 0, _, _ => .error .malformed
  | bound + 1, levels, cs =>
    match cs with
    | '"' :: _ => (ofOption (readText cs)).map fun (s, rest) => (text s, rest)
    | '[' :: rest =>
      if levels = 0 then .error .tooDeep
      else match skipGaps rest with
        | ']' :: rest => .ok (list [], rest)
        | rest => (readItems bound (levels - 1) rest).map fun (xs, rest) => (list xs, rest)
    | '{' :: rest =>
      if levels = 0 then .error .tooDeep
      else match skipGaps rest with
        | '}' :: rest => .ok (object [], rest)
        | rest => (readMembers bound (levels - 1) rest).map fun (ms, rest) =>
          (object (Keyed.ofPairs ms), rest)
    | 'n' :: _ => readWord "null" null cs
    | 't' :: _ => readWord "true" (bool true) cs
    | 'f' :: _ => readWord "false" (bool false) cs
    | 'N' :: _ => readWord "NaN" (real Scalar.nothing) cs
    | 'I' :: _ => readWord "Infinity" (real Scalar.infinity) cs
    | cs => readNumber cs

/-- The items of a list up to its closing bracket, at least one. -/
def readItems : Nat → Nat → List Char → Except (Fault α) (List (Document α) × List Char)
  | 0, _, _ => .error .malformed
  | bound + 1, levels, cs => do
    let (x, rest) ← readValue bound levels (skipGaps cs)
    match skipGaps rest with
    | ',' :: rest =>
      let (xs, rest) ← readItems bound levels rest
      return (x :: xs, rest)
    | ']' :: rest => return ([x], rest)
    | _ => throw .malformed

/-- The members of an object up to its closing brace, at least one. -/
def readMembers : Nat → Nat → List Char →
    Except (Fault α) (List (String × Document α) × List Char)
  | 0, _, _ => .error .malformed
  | bound + 1, levels, cs => do
    let (k, rest) ← ofOption (readText (skipGaps cs))
    match skipGaps rest with
    | ':' :: rest =>
      let (x, rest) ← readValue bound levels (skipGaps rest)
      match skipGaps rest with
      | ',' :: rest =>
        let (ms, rest) ← readMembers bound levels rest
        return ((k, x) :: ms, rest)
      | '}' :: rest => return ([(k, x)], rest)
      | _ => throw .malformed
    | _ => throw .malformed

end

/-- Reads a whole text as one document.  Blanks may surround it, and nothing else. -/
def read (s : String) : Except (Fault α) (Document α) := do
  let (d, rest) ← readValue (s.length + 1) deepest (skipGaps s.toList)
  if (skipGaps rest).isEmpty then return d else throw .malformed

/-- The document of a text, if it is one. -/
def read? (s : String) : Option (Document α) := (read s).toOption

end Document
end Graded
