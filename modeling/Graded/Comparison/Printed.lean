/-
# Reports as tables

A report is shown as a table of its cases, a table of the average figures of each model, and the
difference between the two models, if there is one.
-/
import Graded.Comparison
import Graded.Table

namespace Graded

variable {α : Type} [Scalar α] [Legible α]

namespace Record

/-- The columns of the table of all cases. -/
def columns : List String :=
  ["id", "query", "model", "latency_ms", "precision", "recall", "f1", "filter_accuracy",
   "total_returned", "total_expected", "fuzzy_tp", "fuzzy_fp", "fuzzy_fn", "summary",
   "measurable"]

/-- A figure in a cell; the undefined number if it is missing. -/
def figureCell (f : Figure α) : Document α := .real (f.getD Scalar.nothing)

/-- A document in a cell of its own; null if it is missing. -/
def documentCell (d : Document α) : Document α := if Column.isMissing d then .null else d

/-- The cells of one record, one for each column. -/
def cells (r : Record α) : List (Document α) :=
  [documentCell r.id, documentCell r.query, documentCell r.model, figureCell r.figures.latency,
   figureCell r.figures.precision, figureCell r.figures.recalled, figureCell r.figures.f1,
   figureCell r.figures.accuracy,
   .integer r.matrix.returned, .integer r.matrix.expected, .real r.matrix.truePositive,
   .real r.matrix.falsePositive, .real r.matrix.falseNegative, .text r.summary.statement,
   .bool r.measurable]

omit [Scalar α] [Legible α] in
theorem length_columns : columns.length = 15 := rfl

theorem length_cells (r : Record α) : r.cells.length = columns.length := rfl

end Record

namespace Report

/-- The table of the cases, with the columns that fit a page. -/
def casesText (r : Report α) : String :=
  let of := fun (f : Record α → Document α) => r.records.map f
  Table.plain
    [Table.Strip.ofDocuments "id" (of (·.id)), Table.Strip.ofDocuments "model" (of (·.model)),
     Table.Strip.ofFigures "precision" (r.records.map (·.figures.precision)),
     Table.Strip.ofFigures "recall" (r.records.map (·.figures.recalled)),
     Table.Strip.ofFigures "f1" (r.records.map (·.figures.f1)),
     Table.Strip.ofFigures "filter_accuracy" (r.records.map (·.figures.accuracy)),
     Table.Strip.ofDocuments "summary" (of fun r => .text r.summary.statement)]

/-- The table of the averages. -/
def averagesText (r : Report α) : String :=
  if r.averages.isEmpty then Table.empty Figures.names
  else
    let of := fun (f : Figures α → Figure α) => r.averages.map fun a => f a.2
    Table.named "model" (Table.rowNames (r.averages.map (·.1)))
      [Table.Strip.ofFigures "latency_ms" (of (·.latency)),
       Table.Strip.ofFigures "precision" (of (·.precision)),
       Table.Strip.ofFigures "recall" (of (·.recalled)), Table.Strip.ofFigures "f1" (of (·.f1)),
       Table.Strip.ofFigures "filter_accuracy" (of (·.accuracy))]

/-- The figures of a difference, each after its name. -/
def differenceText (f : Figures α) : String :=
  Table.list (f.toKeyed.map fun (k, x) => (k, Table.realCell (x.getD Scalar.nothing)))

/-- The report as it is shown. -/
def text (r : Report α) : String :=
  r.casesText ++ "\n\n" ++ r.averagesText ++ "\n" ++ match r.difference with
    | some f => "\nLLM minus fuzzy:\n" ++ differenceText f ++ "\n"
    | none => ""

end Report
end Graded
