/-
# Faults

Why a computation has no answer.  Each fault names its cause; the message that goes with some of
them is in `Fault.Message`, and `category` sorts them by what went wrong: a name that is not
there, a value out of place, a thing of the wrong kind, and so on.
-/
import Graded.Document

namespace Graded

/-- The reason why a computation has no answer. -/
inductive Fault (α : Type) where
  /- shapes -/
  | unknownShape (kind : String) (known : List String)
  | parameterCount (kind : String) (needed given : Nat)
  | disorder (kind order : String) (params : List α)
  | spreadNotPositive (spread : α)
  | widthZero
  | slopeZero
  | argumentCount
  /- numbers -/
  | notNumeral (text : String)
  | notNumber
  | noInteger
  | overflow
  | division
  | noRealPower
  | badSugenoParameter (lam : α)
  /- lists -/
  | notList
  | ragged
  | lengths
  | maskLength
  | emptyProfile
  | noPeak
  | tooFewPoints
  | unequalMemberships
  /- operators -/
  | unknownOperator (name : Document α) (known : List String)
  | notName
  | notOperator
  | unknownOperation (name : String)
  | undecided
  | noOrder
  | noEntry
  /- variables -/
  | noSets (variableName : String)
  | duplicateSets (variableName : String) (names : List String)
  | boundMissing
  | emptyDomain (variableName : String)
  | unknownVariable (name : String) (known : List String)
  | noSet (variableName setName : String)
  | noCrispMapping (field : String)
  | notText
  | notRecord
  /- quantifiers -/
  | unknownQuantifier (name : String)
  | shoulderCount
  | unknownQuantifierKind (kind : String)
  /- engines -/
  | unknownSettings (names : List String)
  | resolutionTooSmall
  | variableTaken (name : String)
  | negativeWeight (rule : String)
  | badConnective (rule connective : String)
  | noOutput (name : String)
  | unknownRuleBase (name : String) (known : List String)
  | ruleParts
  | unregistered (variableName : String)
  | noTerm (variableName setName : String)
  | noTerms
  | labelTaken (label : String)
  /- charts -/
  | endNotFinite
  | noColour
  | noStroke
  | truthLabel
  /- look-ups, tables and files -/
  | missing (key : String)
  | noFile (path : String)
  | isFolder (path : String)
  | notFolder (path : String)
  | fileThere (path : String)
  | pathTooLong (path : String)
  | nullInPath
  | malformed
  | tooManyDigits
  | tooDeep
  | notCases (path : String)

namespace Fault

/-- What went wrong, in general. -/
inductive Category where
  | absentKey
  | badValue
  | wrongType
  | noAttribute
  | badIndex
  | badAxis
  | zeroDivision
  | outOfRange
  | absentFile
  | folderNotFile
  | fileNotFolder
  | presentFile
  | refusedBySystem
  | malformedDocument
  | beyondDepth
  | badArgument
  deriving DecidableEq, Repr

/-- The category of each fault. -/
def category {α : Type} : Fault α → Category
  | unknownOperator .. | unknownVariable .. | noSet .. | noCrispMapping _ | unknownQuantifier _
  | unknownSettings _ | noOutput _ | unknownRuleBase .. | unregistered _ | missing _
  | truthLabel => .absentKey
  | unknownShape .. | parameterCount .. | disorder .. | spreadNotPositive _ | widthZero
  | slopeZero | notNumeral _ | noInteger | badSugenoParameter _ | ragged | lengths | noPeak
  | tooFewPoints | unequalMemberships | noSets _ | duplicateSets .. | emptyDomain _
  | shoulderCount | unknownQuantifierKind _ | resolutionTooSmall | variableTaken _
  | negativeWeight _ | badConnective .. | noTerm .. | labelTaken _ | undecided
  | endNotFinite | noColour | noStroke | nullInPath | tooManyDigits => .badValue
  | argumentCount | notNumber | noRealPower | notList | notName | notOperator | ruleParts
  | noTerms => .wrongType
  | notText | notRecord | unknownOperation _ => .noAttribute
  | maskLength | emptyProfile | boundMissing | noEntry => .badIndex
  | noOrder => .badAxis
  | division => .zeroDivision
  | overflow => .outOfRange
  | noFile _ => .absentFile
  | isFolder _ => .folderNotFile
  | notFolder _ => .fileNotFolder
  | fileThere _ => .presentFile
  | pathTooLong _ => .refusedBySystem
  | malformed => .malformedDocument
  | tooDeep => .beyondDepth
  | notCases _ => .badArgument

end Fault
end Graded
