/-
# Settings of an engine

An engine is set by five operators and a resolution, the number of steps in which it samples an
output.  Settings come as entries under six names.  An entry is written, as the name of an
operator or a number to be read, or it is an operation as such, which needs no name.

`read` lets entries override the standard ones, and looks at what comes out: first whether every
name is known, then at the resolution, then at the operators.
-/
import Graded.Catalogue
import Graded.Document.Number
import Graded.Operation

namespace Graded

/-! ## 1. Entries -/

/-- An entry of the settings. -/
inductive Entry (α : Type) where
  | written (value : Document α)
  | given (operation : Operation α)

namespace Entry

variable {α β : Type}

/-- What an entry makes play a role: the operator that it names in a catalogue, or the operation
that it is.  An operation of the family of the role is a regular operator. -/
def operator (catalogue : List (String × β)) (family : Operation α → Option β) :
    Entry α → Except (Fault α) (Chosen β α)
  | written name => (Catalogue.resolve catalogue name).map .regular
  | given o => .ok (match family o with
    | some f => .regular f
    | none => .foreign o)

/-- The whole number of an entry. -/
def wholeNumber [Scalar α] : Entry α → Except (Fault α) Int
  | written value => value.wholeNumber
  | given _ => .error .notNumber

end Entry

/-! ## 2. Settings -/

/-- What an engine is set to. -/
structure Settings (α : Type) where
  norm : Chosen (TNorm α) α
  conorm : Chosen TConorm α
  implication : Chosen Implication α
  accumulation : Chosen Accumulation α
  defuzzifier : Chosen Defuzzifier α
  resolution : Nat
  positive : 0 < resolution

namespace Settings

variable {α : Type}

/-- Settings with operators of the right family for every role. -/
def regular (norm : TNorm α) (conorm : TConorm) (implication : Implication)
    (accumulation : Accumulation) (defuzzifier : Defuzzifier) (resolution : Nat)
    (positive : 0 < resolution) : Settings α :=
  ⟨.regular norm, .regular conorm, .regular implication, .regular accumulation,
    .regular defuzzifier, resolution, positive⟩

/-- The settings where nothing else is said. -/
def standard : Settings α :=
  regular .minimum .maximum .mamdani .maximum .centroid 100 (by decide)

/-- The standard settings as they are written. -/
def standardEntries : Keyed (Document α) :=
  [("t_norm", .text "min"), ("t_conorm", .text "max"), ("implication", .text "mamdani"),
   ("aggregation", .text "max"), ("defuzzification", .text "centroid"),
   ("resolution", .integer 100)]

/-- Entries written one after the other over others. -/
def override {β : Type} (entries changes : Keyed β) : Keyed β :=
  changes.foldl (fun known e => known.put e.1 e.2) entries

/-- The names that settings do not have, sorted. -/
def unknownNames (entries : Keyed (Entry α)) : List String :=
  (entries.keys.filter fun k => !(standardEntries (α := α)).has k).mergeSort fun a b =>
    decide (a ≤ b)

variable [Scalar α]

/-- The settings of entries, which override the standard ones. -/
def read (changes : Keyed (Entry α)) : Except (Fault α) (Settings α) := do
  let entries := override (standardEntries.map fun e => (e.1, .written e.2)) changes
  let get := fun key => (entries.lookup key).getD (.written .null)
  let unknown := unknownNames entries
  if !unknown.isEmpty then throw (.unknownSettings unknown)
  let resolution ← (get "resolution").wholeNumber
  if positive : 0 < resolution.toNat then
    return ⟨← (get "t_norm").operator TNorm.catalogue Operation.norm?,
      ← (get "t_conorm").operator TConorm.catalogue Operation.conorm?,
      ← (get "implication").operator Implication.catalogue Operation.implication?,
      ← (get "aggregation").operator Accumulation.catalogue fun _ => none,
      ← (get "defuzzification").operator Defuzzifier.catalogue fun _ => none,
      resolution.toNat, positive⟩
  else throw .resolutionTooSmall

/-- Without entries the settings are the standard ones. -/
theorem read_nil : read ([] : Keyed (Entry α)) = .ok standard := by
  simp [read, override, standardEntries, unknownNames, Keyed.keys, Keyed.has, List.lookup_cons,
    List.lookup_nil, Entry.operator, Entry.wholeNumber, Document.wholeNumber, Catalogue.resolve,
    TNorm.catalogue, TConorm.catalogue, Implication.catalogue, Accumulation.catalogue,
    Defuzzifier.catalogue, Defuzzifier.name, standard, regular, Except.map, bind, pure,
    Except.bind, Except.pure]

end Settings
end Graded
