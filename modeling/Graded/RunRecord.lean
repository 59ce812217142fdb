/-
# Records of runs

A run of the comparison is recorded in a document: when it was, where the cases came from, how
many there were, the average figures of each model and the difference between the two models.
Before it is written, undefined numbers become null and the version of the code is added, if it
is known.
-/
import Graded.Comparison

namespace Graded
namespace RunRecord

variable {α : Type} [Scalar α]

/-! ## 1. The record of a report -/

/-- A figure in a document; the undefined number if it is missing. -/
def figure (f : Figure α) : Document α := .real (f.getD Scalar.nothing)

/-- Figures in a document. -/
def figures (f : Figures α) : Document α := .object (f.toKeyed.map fun (k, x) => (k, figure x))

/-- How many records could not be measured. -/
def unmeasurable (records : List (Record α)) : Nat := records.countP fun r => !r.measurable

/-- The members of the record of a report. -/
def ofReport [Legible α] (r : Report α) (casesPath : Option String) (created : String) :
    Keyed (Document α) :=
  [("created_utc", .text created),
   ("cases_path", match casesPath with
    | some p => .text p
    | none => .null),
   ("n_cases", .integer r.records.length),
   ("n_unmeasurable", .integer (unmeasurable r.records)),
   ("averages", .object (Keyed.ofPairs (r.averages.map fun (m, f) => (m.plain, figures f)))),
   ("llm_minus_fuzzy", match r.difference with
    | some f => figures f
    | none => .null)]

/-! ## 2. Before it is written -/

mutual

/-- The document with null for every undefined number. -/
def settle : Document α → Document α
  | .real x => if Scalar.undefined x then .null else .real x
  | .list xs => .list (settleItems xs)
  | .object ms => .object (settleMembers ms)
  | d => d

/-- `settle` on each item. -/
def settleItems : List (Document α) → List (Document α)
  | [] => []
  | x :: xs => settle x :: settleItems xs

/-- `settle` on each member. -/
def settleMembers : List (String × Document α) → List (String × Document α)
  | [] => []
  | (k, x) :: ms => (k, settle x) :: settleMembers ms

end

/-- The key under which the version of the code is recorded. -/
def commitKey : String := "code_commit"

/-- The members of a record with the version of the code, unless one is there already. -/
def withCommit (commit : Option String) (ms : Keyed (Document α)) : Keyed (Document α) :=
  if ((ms.lookup commitKey).getD .null).holds then ms
  else ms.put commitKey (match commit with
    | some c => .text c
    | none => .null)

/-- A record as it is written. -/
def finish (commit : Option String) (record : Keyed (Document α)) : Document α :=
  settle (.object (withCommit commit record))

/-! ## 3. Where it is written -/

/-- A path below another.  A path from the root stands for itself. -/
def below (root path : String) : String :=
  if path.startsWith "/" then path
  else if root.isEmpty || root.endsWith "/" then root ++ path
  else root ++ "/" ++ path

/-- The directory of a run. -/
def directory (root runId : String) : String := below root runId

/-- The directory of a file: what stands before the last slash. -/
def directoryOf (path : String) : String :=
  String.ofList ((path.toList.reverse.dropWhile (· != '/')).drop 1).reverse

example : directoryOf "out/deep/run.json" = "out/deep" := by decide +kernel

/-- The file that holds the record of a run. -/
def path (root runId : String) : String := below (directory root runId) "run.json"

end RunRecord
end Graded
