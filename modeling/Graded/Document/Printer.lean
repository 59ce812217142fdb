/-
# Writing documents

The laid-out form of a document: two blanks of indentation for each level, one item or member on
each line, members in the order of their names, and nothing but ASCII.  An empty list or object
stays on its line.
-/
import Graded.Document
import Graded.Legible
import Graded.Text.Quoted
import Graded.Text.Words

namespace Graded
namespace Document

/-! ## 1. Texts -/

/-- A code unit as an escape. -/
def escapedUnit (n : Nat) : List Char := '\\' :: 'u' :: Text.hexadecimal 4 n

/-- One character of a written text.  A character beyond the first plane is written as a pair of
units. -/
def escapedChar (c : Char) : List Char :=
  if c = '"' then ['\\', '"']
  else if c = '\\' then ['\\', '\\']
  else if c = '\n' then ['\\', 'n']
  else if c = '\r' then ['\\', 'r']
  else if c = '\t' then ['\\', 't']
  else if c = '\x0c' then ['\\', 'f']
  else if c = '\x08' then ['\\', 'b']
  else if 0x20 ≤ c.toNat && c.toNat ≤ 0x7E then [c]
  else if c.toNat < 0x10000 then escapedUnit c.toNat
  else if let some half := Text.half? c then escapedUnit half
  else
    let n := c.toNat - 0x10000
    escapedUnit (0xD800 + n / 0x400) ++ escapedUnit (0xDC00 + n % 0x400)

/-- A text between double quotes. -/
def writtenText (s : String) : String :=
  String.ofList ('"' :: s.toList.flatMap escapedChar ++ ['"'])

/-! ## 2. Reals -/

variable {α β : Type} [Scalar α] [Legible α]

/-- A real; the ones that are not finite are written as words. -/
def writtenReal (x : α) : String :=
  if Scalar.undefined x then "NaN"
  else if Scalar.isInfinite x then (if x < 0 then "-Infinity" else "Infinity")
  else Legible.shortest x

/-! ## 3. Layout -/

/-- Members in the order of their names. -/
def sorted (ms : List (String × β)) : List (String × β) :=
  ms.mergeSort fun a b => decide (a.1 ≤ b.1)

/-- A new line at the given depth. -/
def line (depth : Nat) : String := "\n".pushn ' ' (2 * depth)

/-- Parts on lines of their own between two brackets. -/
def block (depth : Nat) (opening closing : String) (parts : List String) : String :=
  if parts.isEmpty then opening ++ closing
  else opening ++ line (depth + 1) ++ ("," ++ line (depth + 1)).intercalate parts ++
    line depth ++ closing

mutual

/-- The laid-out form of a document at a depth. -/
def writtenAt (depth : Nat) : Document α → String
  | null => "null"
  | bool b => if b then "true" else "false"
  | integer n => toString n
  | real x => writtenReal x
  | text s => writtenText s
  | list xs => block depth "[" "]" (writtenItems (depth + 1) xs)
  | object ms =>
    block depth "\x7b" "\x7d" ((sorted (writtenMembers (depth + 1) ms)).map fun (k, s) =>
      writtenText k ++ ": " ++ s)

/-- The written items of a list. -/
def writtenItems (depth : Nat) : List (Document α) → List String
  | [] => []
  | x :: xs => writtenAt depth x :: writtenItems depth xs

/-- The written values of an object under their names. -/
def writtenMembers (depth : Nat) : List (String × Document α) → List (String × String)
  | [] => []
  | (k, x) :: ms => (k, writtenAt depth x) :: writtenMembers depth ms

end

/-- The laid-out form of a document. -/
def written (d : Document α) : String := writtenAt 0 d

/-! ## 4. Names in the laid-out form -/

/-- The lines of a text. -/
def linesOf (text : String) : List (List Char) := text.toList.splitOn '\n'

/-- What stands between the first two quotes of a line. -/
def betweenQuotes (l : List Char) : String :=
  String.ofList (((l.dropWhile (· != '"')).drop 1).takeWhile (· != '"'))

/-- The line has the name of a member. -/
def hasName (l : List Char) : Bool := Text.within ['"', ':', ' '] l

/-- The names of members in the order of the lines, each as it is written up to its first quote. -/
def writtenNames (text : String) : List String :=
  ((linesOf text).filter hasName).map betweenQuotes

end Document
end Graded
