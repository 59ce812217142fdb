/-
# Activities

An activity comes as a record of the search data.  Five summarizers give it a degree: how easy
it is, how it suits families, how much it happens outdoors, how quick it is, and how relevant.

A field that is missing or counts as nothing is read as empty; a field of the wrong kind is a
fault.
-/
import Graded.Document.Number
import Graded.Summary.Generation
import Graded.Text.Case

namespace Graded
namespace Activity

variable {α : Type} [Scalar α]

/-! ## 1. Fields -/

/-- A field of an activity, which has to be a record; null if it is missing. -/
def field (activity : Document α) (key : String) : Except (Fault α) (Document α) :=
  match activity with
  | .object ms => .ok ((ms.lookup key).getD .null)
  | _ => .error .notRecord

/-- A text in lower case. -/
def lowered (d : Document α) : Except (Fault α) (List Char) :=
  d.asText.map fun s => Text.lower s.toList

/-- A text field in lower case; empty if there is nothing in it. -/
def loweredField (activity : Document α) (key : String) : Except (Fault α) (List Char) := do
  let d ← field activity key
  if d.holds then lowered d else return []

/-- One text occurs in another. -/
def mentions (text : List Char) (part : String) : Bool := Text.within part.toList text

/-! ## 2. Degrees -/

def easy (activity : Document α) : Except (Fault α) α := do
  let difficulty ← loweredField activity "difficulty"
  if difficulty = "easy".toList || difficulty = "low".toList then return 1
  else if difficulty = "medium".toList then return 0.3
  else return 0

def forFamilies (activity : Document α) : Except (Fault α) α := do
  let d ← field activity "suitableFor"
  let audience ← if d.holds then (do (← d.items).mapM lowered) else pure []
  let has := fun (s : String) => audience.contains s.toList
  if has "families" || has "family" then return 1
  else if has "children" || has "kids" then return 0.8
  else return 0

def outdoor (activity : Document α) : Except (Fault α) α := do
  let kind ← loweredField activity "experienceType"
  if mentions kind "outdoor" || mentions kind "nature" then return 1
  else if mentions kind "adventure" then return 0.7
  else return 0

def quick (activity : Document α) : Except (Fault α) α := do
  let needed ← loweredField activity "neededTime"
  if mentions needed "< 1" || mentions needed "less than 1" then return 1
  else if mentions needed "1 - 2" then return 0.7
  else if mentions needed "2 - 4" then return 0.3
  else return 0

/-- The degree that the data itself gives; 0 if it gives none. -/
def relevant (activity : Document α) : Except (Fault α) α :=
  match activity with
  | .object ms => match ms.lookup "relevance_score" with
    | some d => d.number
    | none => .ok 0
  | _ => .error .notRecord

/-! ## 3. Summaries -/

/-- The summarizers of activities. -/
def summarizers : List (Summarizer (Document α) α) :=
  [⟨"easy", easy⟩, ⟨"suitable for families", forFamilies⟩, ⟨"outdoor activities", outdoor⟩,
   ⟨"quick visits", quick⟩, ⟨"highly relevant", relevant⟩]

/-- The summaries of a list of activities that are at least half true. -/
def summarize (activities : List (Document α)) (subject : String) :
    Except (Fault α) (List (Summary α)) :=
  Summary.generate activities summarizers subject 0.5 Quantifier.relative

end Activity
end Graded
