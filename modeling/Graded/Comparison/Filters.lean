/-
# Filters read from a query

A reading of a query sets filters, and an evaluation case says which filters it should have set.
A filter may stand under its own key or under the field of its attribute.  Only filters with an
expected value count; if there are none, nothing can be wrong.
-/
import Graded.Attribute
import Graded.Document.Number

namespace Graded
namespace Filters

variable {α : Type} [Scalar α]

/-- The field that may stand for a filter key. -/
def fieldOf (key : String) : String :=
  match Attribute.find? key with
  | some a => a.field
  | none => key

/-- The value of a filter: under its key if that is there, else under its field; null if under
neither.  Something that is no record is a fault. -/
def value (filters : Document α) (key : String) : Except (Fault α) (Document α) :=
  match filters with
  | .object ms => .ok (match ms.lookup key with
    | some v => v
    | none => (ms.lookup (fieldOf key)).getD .null)
  | .list xs => .error (if xs.any (Document.same (.text key)) then .notName else .notRecord)
  | .text s => .error (if Text.within key.toList s.toList then .notName else .notRecord)
  | _ => .error .notList

/-- Filters that count as nothing are no filters. -/
def orNone (filters : Document α) : Document α := if filters.holds then filters else .object []

/-- One filter: nothing if no value is expected, else whether the actual value is equal to the
expected one. -/
def compareOne (actual expected : Document α) (key : String) : Except (Fault α) (Option Bool) := do
  let want ← value expected key
  if want.holds then return some ((← value actual key).same want) else return none

/-- The share of expected filters that are met; 1 if none are expected. -/
def accuracy (actual expected : Document α) : Except (Fault α) α := do
  let verdicts ← Attribute.filterKeys.mapM (compareOne (orNone actual) (orNone expected))
  let found := verdicts.filterMap id
  if found.isEmpty then return 1
  else return (found.count true : α) / (found.length : α)

end Filters
end Graded
