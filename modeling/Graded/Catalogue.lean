/-
# Catalogues

A catalogue lists the operators of one family under their names.  Settings choose operators by
name; a name that is not in the catalogue is answered with the names that are.
-/
import Graded.Fault

namespace Graded
namespace Catalogue

variable {α β : Type}

/-- The names of a catalogue, sorted. -/
def names (entries : List (String × β)) : List String :=
  (entries.map (·.1)).mergeSort fun a b => decide (a ≤ b)

/-- The operator a name stands for.  Lists and objects are no names at all. -/
def resolve (entries : List (String × β)) (name : Document α) : Except (Fault α) β :=
  match name with
  | .list _ | .object _ => .error .notName
  | .text s => match entries.lookup s with
    | some operator => .ok operator
    | none => .error (.unknownOperator name (names entries))
  | _ => .error (.unknownOperator name (names entries))

end Catalogue
end Graded
