/-
# Comparing models on evaluation cases

An evaluation case records what one model made of one query: the titles it returned, the filters
it set, how long it took, and what was expected.  `evaluate` turns a case into a record of
figures, and `report` puts the records of many cases together: the average figures of each model,
and by how much the model "llm" exceeds the model "fuzzy".

A figure can be missing: precision and recall are, for a case without expected names.  Averages
are taken over the figures that are there, and an average of none is missing too.
-/
import Graded.Column
import Graded.Comparison.Filters
import Graded.Document.Shown
import Graded.Relevance
import Graded.Title.Similarity

namespace Graded

variable {α : Type} [Scalar α]

/-! ## 1. Titles in documents -/

namespace Title

/-- The similarity of two titles that come as documents.  Only texts are alike. -/
def likenessOf (a b : Document α) : α :=
  match a, b with
  | .text s, .text t => similarity s.toList t.toList
  | _, _ => 0

/-- The document is a text. -/
def isText : Document α → Bool
  | .text _ => true
  | _ => false

/-- Titles can be compared if they are texts.  If one side is empty there is nothing to compare,
and then nothing is asked of the other. -/
def comparable (returned expected : List (Document α)) : Except (Fault α) Unit :=
  if returned.isEmpty || expected.isEmpty || (returned ++ expected).all isText then .ok ()
  else .error .notText

end Title

/-! ## 2. Records -/

/-- A figure that may be missing. -/
abbrev Figure (α : Type) := Option α

/-- The figures of one model that are averaged. -/
structure Figures (α : Type) where
  latency : Figure α
  precision : Figure α
  recalled : Figure α
  f1 : Figure α
  accuracy : Figure α

namespace Figures

/-- The names of the figures. -/
def names : List String := ["latency_ms", "precision", "recall", "f1", "filter_accuracy"]

/-- The figures under their names. -/
def toKeyed (f : Figures α) : Keyed (Figure α) :=
  names.zip [f.latency, f.precision, f.recalled, f.f1, f.accuracy]

omit [Scalar α] in
@[simp] theorem keys_toKeyed (f : Figures α) : Keyed.keys f.toKeyed = names := rfl

end Figures

/-- What came of one case. -/
structure Record (α : Type) where
  id : Document α
  query : Document α
  model : Document α
  figures : Figures α
  matrix : Confusion α
  summary : Summary α
  measurable : Bool

/-- A member of a case, or what stands for it if it is missing. -/
def caseMember (case : Keyed (Document α)) (key : String) (missing : Document α) : Document α :=
  (case.lookup key).getD missing

/-- The members of a case, which has to be an object. -/
def caseMembers (case : Document α) : Except (Fault α) (Keyed (Document α)) :=
  match case with
  | .object ms => .ok ms
  | _ => .error .notRecord

/-- The record of one case.  A case that cannot be measured is reported. -/
def evaluate [Legible α] (case : Document α) : Except (Fault α) (Noted (Record α)) := do
  let ms ← caseMembers case
  let returned ← (caseMember ms "returned" (.list [])).items
  let expected ← (caseMember ms "expected" (.list [])).items
  Title.comparable returned expected
  let ⟨metrics, notices⟩ := measure Title.likenessOf returned expected
  let id := caseMember ms "id" .null
  let figure := fun (x : α) => if metrics.measurable then some x else none
  let unmeasured := if metrics.measurable then []
    else [.unmeasured id.plain (caseMember ms "model" .null).plain]
  let latency ← (caseMember ms "latency_ms" (.real 0)).number
  let accuracy ← Filters.accuracy (caseMember ms "parsed_filters" .null)
    (caseMember ms "expected_filters" .null)
  return ⟨⟨id, caseMember ms "query" (.text ""), caseMember ms "model" (.text "fuzzy"),
    ⟨some latency, figure metrics.precision, figure metrics.recalled, figure metrics.f1,
      some accuracy⟩,
    metrics.matrix, metrics.summary, metrics.measurable⟩, notices ++ unmeasured⟩

/-! ## 3. Averages -/

/-- The figures that are there and defined. -/
def present (figures : List (Figure α)) : List α :=
  figures.filterMap fun f => f.bind fun x => if Scalar.undefined x then none else some x

/-- The mean of the figures that are there. -/
def averageOf (figures : List (Figure α)) : Figure α :=
  let xs := present figures
  if xs.isEmpty then none else some (Scalar.mean xs)

/-- The average figures of a list of records. -/
def average (records : List (Record α)) : Figures α :=
  let of := fun (f : Figures α → Figure α) => averageOf (records.map fun r => f r.figures)
  ⟨of (·.latency), of (·.precision), of (·.recalled), of (·.f1), of (·.accuracy)⟩

/-- The difference of two figures, missing if one of them is. -/
def differenceOf (a b : Figure α) : Figure α := do return (← a) - (← b)

/-- The figures of one model less those of another. -/
def Figures.minus (f g : Figures α) : Figures α :=
  ⟨differenceOf f.latency g.latency, differenceOf f.precision g.precision,
    differenceOf f.recalled g.recalled, differenceOf f.f1 g.f1, differenceOf f.accuracy g.accuracy⟩

/-! ## 4. Models -/

/-- A model is named by anything but null and the undefined number; lists and objects do not name
at all. -/
def namesModel : Document α → Except (Fault α) Bool
  | .null => .ok false
  | .real x => .ok (!Scalar.undefined x)
  | .list _ | .object _ => .error .notName
  | _ => .ok true

/-- The order of models: numbers by value, then texts by their letters. -/
def modelBefore (a b : Document α) : Bool :=
  match a, b with
  | .text s, .text t => s ≤ t
  | .text _, _ => false
  | _, .text _ => true
  | a, b => a.atMost b

/-- Each model once, as it first occurs. -/
def distinctModels : List (Document α) → List (Document α) → List (Document α)
  | seen, [] => seen
  | seen, m :: ms => distinctModels (if seen.any m.same then seen else seen ++ [m]) ms

/-- The models of a list of records, in order, in the form of a column of their own. -/
def models (records : List (Record α)) : Except (Fault α) (List (Document α)) := do
  let named ← records.filterM fun r => namesModel r.model
  let distinct := (distinctModels [] (named.map (·.model))).mergeSort modelBefore
  Column.check distinct
  return Column.settled distinct

/-! ## 5. Reports -/

/-- The records of all cases, the average figures of each model, and the difference of the two
models of interest if both occur. -/
structure Report (α : Type) where
  records : List (Record α)
  averages : List (Document α × Figures α)
  difference : Option (Figures α)

/-- The average figures of a model in a list of averages. -/
def figuresOf (name : String) (averages : List (Document α × Figures α)) : Option (Figures α) :=
  (averages.find? fun a => a.1.same (.text name)).map (·.2)

/-- The records with the cells of each of their own columns of one kind. -/
def aligned (records : List (Record α)) : Except (Fault α) (List (Record α)) := do
  let of := fun (f : Record α → Document α) => do
    Column.check (records.map f)
    return Column.settled (records.map f)
  let ids ← of (·.id)
  let queries ← of (·.query)
  let models ← of (·.model)
  return List.zipWith (fun r (id, query, model) => { r with id, query, model }) records
    (ids.zip (queries.zip models))

/-- The report on a list of cases. -/
def report [Legible α] (cases : List (Document α)) : Except (Fault α) (Noted (Report α)) := do
  let evaluated := Noted.all (← cases.mapM evaluate)
  let records ← aligned evaluated.value
  if records.isEmpty then return ⟨⟨[], [], none⟩, [.noCases]⟩
  let averages := (← models records).map fun m =>
    (m, average (records.filter fun r => r.model.same m))
  let difference := do return (← figuresOf "llm" averages).minus (← figuresOf "fuzzy" averages)
  return ⟨⟨records, averages, difference⟩, evaluated.notices⟩

end Graded
