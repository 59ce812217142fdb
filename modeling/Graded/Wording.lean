/-
# Crisp values in words

A crisp value of a variable is put into words by the names of the sets that hold it: a list of
names, or a short sentence.  The sentence hedges a single term by its degree, and between two
terms it names the first alone only if that is clearly ahead.
-/
import Graded.Text.Words
import Graded.Variable

namespace Graded

variable {α : Type} [Scalar α]

/-! ## 1. Names -/

/-- The names of the sets that reach a threshold, in the order of the sets; the dominant set if
none does. -/
def Variable.interpretation (v : Variable α) (x threshold : α) : List String :=
  match Grading.reaching threshold (v.fuzzify x) with
  | [] => [Text.spaced (v.dominant x).1]
  | grades => grades.map fun g => Text.spaced g.1

/-! ## 2. Sentences -/

/-- How strongly a single term is asserted. -/
inductive Hedge where
  | slightly
  | somewhat
  | quite
  | definitely
  deriving DecidableEq, Repr

namespace Hedge

/-- The hedge for a degree. -/
def ofDegree (mu : α) : Hedge :=
  if 0.8 ≤ mu then definitely
  else if 0.6 ≤ mu then quite
  else if 0.4 ≤ mu then somewhat
  else slightly

def text : Hedge → String
  | slightly => "slightly"
  | somewhat => "somewhat"
  | quite => "quite"
  | definitely => "definitely"

end Hedge

/-- What a sentence about a value says. -/
inductive Description (α : Type) where
  | undefined
  | hedged (hedge : Hedge) (term : String)
  | leading (term : String) (degree : α)
  | between (first second : String)

namespace Description

/-- What to say about ranked terms. -/
def ofTerms : Grading α → Description α
  | [] => undefined
  | [(term, mu)] => hedged (Hedge.ofDegree mu) term
  | (first, mu) :: (second, _) :: _ => if 0.7 < mu then leading first mu else between first second

/-- The term that is named first, if any is. -/
def first? : Description α → Option String
  | undefined => none
  | hedged _ term => some term
  | leading term _ => some term
  | between first _ => some first

/-- The sentence about something called `label`. -/
def text [Legible α] (label : String) : Description α → String
  | undefined => label ++ " is undefined"
  | hedged hedge term => label ++ " is " ++ hedge.text ++ " " ++ Text.spaced term
  | leading term mu =>
    label ++ " is " ++ Text.spaced term ++ " (" ++ Legible.places 0 (mu * 100.0) ++ "%)"
  | between first second =>
    label ++ " is between " ++ Text.spaced first ++ " and " ++ Text.spaced second

end Description

/-- The description of a value by the sets that hold it to at least a fifth. -/
def Variable.describe (v : Variable α) (x : α) : Description α :=
  Description.ofTerms (v.terms x 0.2)

end Graded
