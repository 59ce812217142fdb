/-
# Documents in messages

How a document is shown inside a message.  Texts are quoted, null and the truth values are words,
lists stand in brackets and objects in braces.  `plain` leaves a text that stands alone unquoted.
-/
import Graded.Document
import Graded.Legible
import Graded.Text.Quoted

namespace Graded
namespace Document

variable {α : Type} [Legible α]

mutual

/-- A document as shown in a message. -/
def shown : Document α → String
  | null => "None"
  | bool b => if b then "True" else "False"
  | integer n => toString n
  | real x => Legible.shortest x
  | text s => Text.quoted s
  | list xs => "[" ++ ", ".intercalate (shownItems xs) ++ "]"
  | object ms => "\x7b" ++ ", ".intercalate (shownMembers ms) ++ "\x7d"

/-- The items of a list as shown. -/
def shownItems : List (Document α) → List String
  | [] => []
  | x :: xs => shown x :: shownItems xs

/-- The members of an object as shown: the quoted name, a colon, the value. -/
def shownMembers : List (String × Document α) → List String
  | [] => []
  | (k, x) :: ms => (Text.quoted k ++ ": " ++ shown x) :: shownMembers ms

end

/-- A document that stands alone: a text is written as it is. -/
def plain : Document α → String
  | text s => s
  | d => shown d

/-- Numbers in parentheses, as a group of parameters is shown; one alone keeps a comma. -/
def group (xs : List α) : String :=
  match xs with
  | [x] => "(" ++ Legible.shortest x ++ ",)"
  | xs => "(" ++ ", ".intercalate (xs.map Legible.shortest) ++ ")"

end Document
end Graded
