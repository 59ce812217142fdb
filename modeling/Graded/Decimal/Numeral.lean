/-
# Reading a number from text

The written numbers this library accepts: a sign, digits with an optional point, an optional
exponent, or one of the words for an infinite or undefined number.  Underscores may stand
between two digits.  Blanks around the number are ignored, the four ASCII separators apart, and
digits of any script count.
-/
import Graded.Text.Blank
import Graded.Text.Digit

namespace Graded
namespace Decimal

/-- What a text says: `± digits · 10 ^ place`, or a word. -/
inductive Numeral where
  | decimal (negative : Bool) (digits : Nat) (place : Int)
  | infinite (negative : Bool)
  | undefined
  deriving Repr, DecidableEq

namespace Numeral

/-! ## 1. Runs of digits -/

/-- The blanks that may surround a number. -/
def isPadding (c : Char) : Bool := Text.isBlank c && !(0x1C ≤ c.toNat && c.toNat ≤ 0x1F)

/-- Digits from the front of the text, with single underscores allowed between two of them:
their number, their value on top of `seen`, and the rest of the text. -/
def digitRun (count seen : Nat) : List Char → Nat × Nat × List Char
  | [] => (count, seen, [])
  | '_' :: c :: cs =>
    if count = 0 then (count, seen, '_' :: c :: cs)
    else match Text.digit? c with
      | some d => digitRun (count + 1) (10 * seen + d) cs
      | none => (count, seen, '_' :: c :: cs)
  | c :: cs =>
    match Text.digit? c with
    | some d => digitRun (count + 1) (10 * seen + d) cs
    | none => (count, seen, c :: cs)

/-- The sign in front, if any, and the rest. -/
def sign : List Char → Bool × List Char
  | '-' :: cs => (true, cs)
  | '+' :: cs => (false, cs)
  | cs => (false, cs)

/-- The exponent after the digits: nothing at all, or a mark, a sign and at least one digit. -/
def exponent? : List Char → Option Int
  | [] => some 0
  | c :: cs =>
    if c == 'e' || c == 'E' then
      let (negative, rest) := sign cs
      match digitRun 0 0 rest with
      | (0, _, _) => none
      | (_, n, []) => some (if negative then -(n : Int) else n)
      | _ => none
    else none

/-! ## 2. Numbers and words -/

/-- A number without its sign. -/
def unsigned? (negative : Bool) (text : List Char) : Option Numeral :=
  match text.map Char.toLower with
  | ['i', 'n', 'f'] => some (.infinite negative)
  | ['i', 'n', 'f', 'i', 'n', 'i', 't', 'y'] => some (.infinite negative)
  | ['n', 'a', 'n'] => some .undefined
  | _ =>
    let (before, whole, rest) := digitRun 0 0 text
    match rest with
    | '.' :: tail =>
      let (after, value, rest) := digitRun 0 whole tail
      if before + after = 0 then none
      else (exponent? rest).map fun e => .decimal negative value (e - after)
    | _ =>
      if before = 0 then none
      else (exponent? rest).map fun e => .decimal negative whole e

/-- Reads a number, blanks around it ignored. -/
def ofText? (text : String) : Option Numeral :=
  let (negative, rest) := sign (Text.trimOf isPadding text.toList)
  unsigned? negative rest

/-- Reads a whole number: a sign and digits, nothing else. -/
def integer? (text : String) : Option Int :=
  let (negative, rest) := sign (Text.trimOf isPadding text.toList)
  match digitRun 0 0 rest with
  | (0, _, _) => none
  | (_, n, []) => some (if negative then -(n : Int) else n)
  | _ => none

end Numeral
end Decimal
end Graded
