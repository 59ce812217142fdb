/-
# Quoted text

Text inside a message is quoted so that its ends and its invisible characters can be seen.
Single quotes are used, unless the text has a single quote and no double one.  Within the quotes
a backslash, the quote in use and the three common line characters are escaped by a letter, and
any other unprintable character by its code point in two, four or eight hexadecimal digits.  Half
a pair of code units is written as itself.
-/
import Graded.Text.Half
import Graded.Text.Printable

namespace Graded
namespace Text

/-- A natural in hexadecimal digits, with zeros in front up to the given width. -/
def hexadecimal (width n : Nat) : List Char :=
  let digits := Nat.toDigits 16 n
  List.replicate (width - digits.length) '0' ++ digits

/-- The quote for a text: single, unless only the single one occurs in it. -/
def quoteFor (text : List Char) : Char :=
  if text.contains '\'' && !text.contains '"' then '"' else '\''

/-- One character between the given quotes. -/
def escape (quote c : Char) : List Char :=
  if c = quote || c = '\\' then ['\\', c]
  else if c = '\n' then ['\\', 'n']
  else if c = '\r' then ['\\', 'r']
  else if c = '\t' then ['\\', 't']
  else if let some half := half? c then '\\' :: 'u' :: hexadecimal 4 half
  else if isPrintable c then [c]
  else if c.toNat < 0x100 then '\\' :: 'x' :: hexadecimal 2 c.toNat
  else if c.toNat < 0x10000 then '\\' :: 'u' :: hexadecimal 4 c.toNat
  else '\\' :: 'U' :: hexadecimal 8 c.toNat

/-- The text between quotes. -/
def quoted (text : String) : String :=
  let quote := quoteFor text.toList
  String.ofList (quote :: text.toList.flatMap (escape quote) ++ [quote])

/-- Quoted texts in brackets, separated by a comma and a space. -/
def quotedList (texts : List String) : String :=
  "[" ++ ", ".intercalate (texts.map quoted) ++ "]"

example : quoted "it's" = "\"it's\"" := by decide +kernel
example : quoted "a\nb" = "'a\\nb'" := by decide +kernel

end Text
end Graded
