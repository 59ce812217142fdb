/-
# The messages of faults

The wording of every fault that has one.  A fault without a message says all there is to say by
its category.
-/
import Graded.Document.Shown
import Graded.Fault

namespace Graded
namespace Fault

variable {α : Type} [Legible α]

/-- The message of a fault, if it has one. -/
def message? : Fault α → Option String
  | unknownShape kind known =>
    some ("Unknown membership function type: " ++ kind ++ ". Known types: " ++
      Text.quotedList known)
  | parameterCount kind needed given =>
    some (kind ++ " needs " ++ toString needed ++ " parameters, got " ++ toString given)
  | disorder kind order params =>
    some (kind ++ " must satisfy " ++ order ++ ", got " ++ Document.group params)
  | spreadNotPositive spread =>
    some ("gaussian sigma must be positive, got " ++ Legible.shortest spread)
  | widthZero => some "generalized_bell width a must be non-zero"
  | slopeZero => some "sigmoid slope a must be non-zero"
  | badSugenoParameter lam =>
    some ("Sugeno negation needs lam > -1, got " ++ Legible.shortest lam)
  | unequalMemberships => some "Membership arrays must have the same length"
  | unknownOperator name known =>
    some ("Unknown operator " ++ name.shown ++ "; choose from " ++ Text.quotedList known)
  | noSets name => some ("Variable " ++ Text.quoted name ++ " needs at least one set")
  | duplicateSets name sets =>
    some ("Duplicate set names in " ++ Text.quoted name ++ ": " ++ Text.quotedList sets)
  | emptyDomain name => some ("Domain of " ++ Text.quoted name ++ " must have min < max")
  | unknownVariable name known =>
    some ("Unknown fuzzy variable " ++ Text.quoted name ++ "; choose from " ++
      Text.quotedList known)
  | noSet name set => some ("Variable " ++ Text.quoted name ++ " has no set " ++ Text.quoted set)
  | noCrispMapping field => some ("No crisp fuzzy mapping for field " ++ Text.quoted field)
  | unknownQuantifier name => some ("Unknown quantifier " ++ Text.quoted name)
  | shoulderCount => some "shoulder quantifier needs 2 parameters"
  | unknownQuantifierKind kind => some ("Unknown quantifier type: " ++ kind)
  | unknownSettings names => some ("Unknown FIS config keys: " ++ Text.quotedList names)
  | resolutionTooSmall => some "resolution must be at least 1"
  | variableTaken name => some ("Variable " ++ Text.quoted name ++ " already registered")
  | negativeWeight rule => some ("Rule " ++ rule ++ " has negative weight")
  | badConnective rule connective =>
    some ("Rule " ++ rule ++ " connective must be AND or OR, got " ++ Text.quoted connective)
  | noOutput name => some ("Output variable " ++ Text.quoted name ++ " not found")
  | unknownRuleBase name known =>
    some ("Unknown rule base " ++ Text.quoted name ++ "; choose from " ++ Text.quotedList known)
  | notCases path => some ("Expected a JSON list of cases in '" ++ path ++ "'")
  | _ => none

end Fault
end Graded
