/-
# Rules

A rule concludes, from conditions on some variables, that an output variable is in one of its
sets.  `Rule.strength` says how far the conditions hold: each is read off the memberships of its
variable, the degrees are joined by a norm or a conorm, and the result is scaled by the weight of
the rule.

A condition on a variable that was not given, or on a set that the variable does not have, reads
0; negated, it reads 1.

Any word may be written between the conditions of a rule, but only the two that mean something
are acceptable in an engine; `Rule.fault?` says so.
-/
import Graded.Document.Number
import Graded.Grading
import Graded.Operation
import Graded.Text.Case

namespace Graded

/-! ## 1. The parts of a rule -/

/-- A clause of a rule: a variable is, or is not, in one of its sets. -/
structure Condition where
  variableName : String
  setName : String
  negated : Bool
  deriving DecidableEq, Repr

/-- What a rule concludes: the output variable is in one of its sets. -/
structure Conclusion where
  variableName : String
  setName : String
  deriving DecidableEq, Repr

/-- How the conditions of a rule are joined. -/
inductive Connective where
  | and
  | or
  | other (word : String)
  deriving DecidableEq, Repr

namespace Connective

/-- A connective as it is written. -/
def text : Connective → String
  | and => "AND"
  | or => "OR"
  | other word => word

/-- The connective of a word, whatever its case. -/
def ofText (s : String) : Connective :=
  let word := String.ofList (Text.upper s.toList)
  if word = "AND" then and else if word = "OR" then or else other word

/-- A connective is written in upper case. -/
theorem text_ofText (s : String) : (ofText s).text = String.ofList (Text.upper s.toList) := by
  by_cases h : String.ofList (Text.upper s.toList) = "AND"
  · simp [ofText, text, h]
  · by_cases h' : String.ofList (Text.upper s.toList) = "OR" <;> simp [ofText, text, h, h']

end Connective

/-- A rule, with its conditions in order. -/
structure Rule (α : Type) where
  id : String
  conditions : List Condition
  conclusion : Conclusion
  weight : α
  connective : Connective

variable {α : Type} [Scalar α]

/-! ## 2. Reading rules -/

namespace Condition

/-- A condition from its parts: the variable, the set, and whether it is negated. -/
def read (parts : Document α) : Except (Fault α) Condition := do
  match ← parts.items with
  | [v, s] => return ⟨← v.asText, ← s.asText, false⟩
  | [v, s, negated] => return ⟨← v.asText, ← s.asText, negated.holds⟩
  | _ => throw .ruleParts

end Condition

namespace Conclusion

/-- A conclusion from its parts, the variable and the set. -/
def read (parts : Document α) : Except (Fault α) Conclusion := do
  match ← parts.items with
  | [v, s] => return ⟨← v.asText, ← s.asText⟩
  | _ => throw .ruleParts

end Conclusion

namespace Rule

/-- A rule from its parts, looked at in this order. -/
def read (id : String) (conditions : List (Document α))
    (conclusion weight connective : Document α) :
    Except (Fault α) (Rule α) := do
  let conditions ← conditions.mapM Condition.read
  let conclusion ← Conclusion.read conclusion
  let weight ← weight.number
  return ⟨id, conditions, conclusion, weight, .ofText (← connective.asText)⟩

/-- A rule of full weight whose conditions have to hold together, none of them negated. -/
def plain (id : String) (conditions : List (String × String)) (conclusion : Conclusion) : Rule α :=
  ⟨id, conditions.map fun c => ⟨c.1, c.2, false⟩, conclusion, 1, .and⟩

/-- What keeps a rule out of an engine. -/
def fault? (r : Rule α) : Option (Fault α) :=
  if r.weight < 0 then some (.negativeWeight r.id)
  else match r.connective with
    | .other word => some (.badConnective r.id word)
    | _ => none

end Rule

/-! ## 3. Firing -/

/-- The memberships of the inputs: a grading of its sets for each variable that was given. -/
abbrev Readings (α : Type) := Keyed (Grading α)

/-- The degree to which a condition holds. -/
def Condition.degree (c : Condition) (readings : Readings α) : α :=
  let mu := Grading.degreeOf ((readings.lookup c.variableName).getD []) c.setName
  if c.negated then complement mu else mu

namespace Rule

/-- The degrees of the conditions, in order. -/
def degrees (r : Rule α) (readings : Readings α) : List α := r.conditions.map (·.degree readings)

/-- How strongly a rule fires.  Whatever is not joined by "and" is joined by the conorm. -/
def strength (norm : Chosen (TNorm α) α) (conorm : Chosen TConorm α) (r : Rule α)
    (readings : Readings α) : Except (Fault α) α :=
  match r.connective with
  | .and => (norm.all (r.degrees readings)).map (· * r.weight)
  | _ => (conorm.any (r.degrees readings)).map (· * r.weight)

/-- A rule without conditions fires with its weight if its conditions have to hold together,
whatever plays the norm. -/
theorem strength_nil {norm : Chosen (TNorm α) α} {conorm : Chosen TConorm α} {r : Rule α}
    {readings : Readings α} (h : r.conditions = []) (ha : r.connective = .and) :
    r.strength norm conorm readings = .ok (1 * r.weight) := by
  cases norm <;>
    simp [strength, degrees, h, ha, Chosen.all, Operand.number, Except.map, bind, pure,
      Except.bind, Except.pure]

end Rule
end Graded
