/-
# Attributes of activities

An activity has a handful of attributes, and each goes by several names: the field of the data
that holds it, a label for people, the fuzzy variable behind it if it has one, and the key of a
filter.  `Attribute.find?` knows an attribute by any of them.

Two of the attributes have crisp positions on their variable for the values that the data uses.
A third, the type of experience, gives degrees to a list of categories.
-/
import Graded.Fault
import Graded.Text.Case
import Graded.Text.Words

namespace Graded

/-! ## 1. Names -/

/-- The attributes of an activity. -/
inductive Attribute where
  | time
  | difficulty
  | experience
  | audience
  deriving DecidableEq, Repr

namespace Attribute

def all : List Attribute := [time, difficulty, experience, audience]

/-- What the attribute itself is called. -/
def title : Attribute → String
  | time => "time"
  | difficulty => "difficulty"
  | experience => "experience"
  | audience => "audience"

/-- The names of an attribute, each under what kind of name it is. -/
def names : Attribute → Keyed String
  | time => [("api_field", "neededTime"), ("label", "Time needed"), ("mf_name", "time_needed"),
      ("filter_key", "needed_time")]
  | difficulty => [("api_field", "difficulty"), ("label", "Difficulty"), ("mf_name", "difficulty"),
      ("filter_key", "difficulty")]
  | experience => [("api_field", "experienceType"), ("label", "Experience type"),
      ("filter_key", "experience_type")]
  | audience => [("api_field", "suitableFor"), ("label", "Suitable for"),
      ("mf_name", "suitability"), ("filter_key", "suitable_for")]

/-- The field of the data that holds the attribute. -/
def field : Attribute → String
  | time => "neededTime"
  | difficulty => "difficulty"
  | experience => "experienceType"
  | audience => "suitableFor"

theorem lookup_field (a : Attribute) : a.names.lookup "api_field" = some a.field := by
  cases a <;> decide

/-- The attribute that goes by a name. -/
def find? (name : String) : Option Attribute :=
  all.find? fun a => a.names.any fun n => n.2 == name

/-- The attribute of a title. -/
def ofTitle? (title : String) : Option Attribute := all.find? fun a => a.title == title

/-- The keys of the filters that are compared with an expectation. -/
def filterKeys : List String := ["experience_type", "needed_time", "difficulty", "suitable_for"]

/-! ## 2. Positions of values -/

variable {α : Type} [Scalar α]

def difficultyPositions : Keyed α :=
  [("easy", 0.2), ("medium", 0.5), ("difficult", 0.8), ("low", 0.2), ("high", 0.8)]

def timePositions : Keyed α :=
  [("< 1 h", 0.1), ("1 - 2 h", 0.25), ("2 - 4 h", 0.4), ("> 4 h", 0.6), ("half a day", 0.5),
   ("a day", 0.75), ("several days", 0.9), ("lessthan1hour", 0.1), ("between1_2hours", 0.25),
   ("between2_4hours", 0.4), ("between4_8hours", 0.6), ("morethan1day", 0.9)]

/-- A value as it is looked up: no blanks around it, lower case. -/
def normal (value : String) : String :=
  String.ofList (Text.lower (Text.trim value.toList))

/-- The position of a value; the middle if the value is not known. -/
def position (positions : Keyed α) (value : String) : α :=
  (positions.lookup (normal value)).getD 0.5

/-- The position of a value of the attribute that goes by `name`. -/
def positionOf (name : String) (value : Document α) : Except (Fault α) α :=
  match find? name, value with
  | some difficulty, .text s => .ok (position difficultyPositions s)
  | some time, .text s => .ok (position timePositions s)
  | some difficulty, _ => .error .notText
  | some time, _ => .error .notText
  | _, _ => .error (.noCrispMapping name)

/-! ## 3. Types of experience -/

/-- The categories of experience. -/
def categories : List String :=
  ["outdoor", "culture", "culinary", "wellness", "adventure", "family"]

/-- The categories that other words count towards: the degree and the words. -/
def related : Keyed (α × List String) :=
  [("adventure", 0.6, ["outdoor", "sport"]), ("family", 0.5, ["easy", "accessible"]),
   ("wellness", 0.7, ["relax"])]

/-- The degree of a label in a category: 1 if the label names it, the degree of its related
words if the label has one of them, else 0. -/
def experienceDegree (label : List Char) (category : String) : α :=
  if Text.within category.toList label then 1
  else match related.lookup category with
    | some (degree, words) =>
      if words.any fun w => Text.within w.toList label then degree else 0
    | none => 0

/-- The degree of a type of experience in each category. -/
def experienceGrades (type : String) : Keyed α :=
  categories.map fun c => (c, experienceDegree (Text.lower type.toList) c)

end Attribute
end Graded
