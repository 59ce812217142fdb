/-
# Notices

What a computation reports beside its result: that it fell back on a default, that something
could not be measured, how far it has got.  A computation that reports returns its notices with
its value, in the order in which they arose.
-/
import Graded.Text.Quoted

namespace Graded

/-! ## 1. Notices -/

/-- What is said when a comparison has no expected names. -/
def noExpectedNames : String :=
  "No expected names: fuzzy precision and recall are undefined for this query"

/-- Something worth reporting. -/
inductive Notice where
  | noSupport
  | noRuleFired (output : String)
  | nothingExpected
  | unmeasured (caseId model : String)
  | noCases
  | evaluating (count : Nat) (path : String)
  | nothingToEvaluate
  | recordWritten (path : String)
  | chartSaved (path : String)
  deriving DecidableEq, Repr

namespace Notice

/-- How serious a notice is. -/
inductive Level where
  | info
  | warning
  | error
  deriving DecidableEq, Repr

/-- The part of the library that reports. -/
inductive Origin where
  | defuzzification
  | inference
  | metrics
  | comparison
  | commandLine
  deriving DecidableEq, Repr

/-- A notice of the second level is reported where the first is the least that is. -/
def Level.admits : Level → Level → Bool
  | .info, _ => true
  | .warning, level => level != .info
  | .error, level => level == .error

/-- The word for a level. -/
def Level.name : Level → String
  | .info => "INFO"
  | .warning => "WARNING"
  | .error => "ERROR"

def level : Notice → Level
  | noSupport | noRuleFired _ | nothingExpected | noCases => .warning
  | unmeasured .. | evaluating .. | recordWritten _ | chartSaved _ => .info
  | nothingToEvaluate => .error

def origin : Notice → Origin
  | noSupport => .defuzzification
  | noRuleFired _ => .inference
  | nothingExpected => .metrics
  | unmeasured .. | noCases => .comparison
  | evaluating .. | nothingToEvaluate | recordWritten _ | chartSaved _ => .commandLine

/-- The wording of a notice. -/
def text : Notice → String
  | noSupport => "Defuzzification skipped due to zero aggregated support; returning domain midpoint"
  | noRuleFired output =>
    "No rule fired for " ++ Text.quoted output ++ "; returning domain midpoint"
  | nothingExpected => noExpectedNames
  | unmeasured caseId model => "Case " ++ caseId ++ " (" ++ model ++ "): " ++ noExpectedNames
  | noCases => "No evaluation cases given"
  | evaluating count path => "Evaluating " ++ toString count ++ " cases from " ++ path
  | nothingToEvaluate => "Nothing to evaluate"
  | recordWritten path => "Wrote run summary to " ++ path
  | chartSaved path => "Saved comparison chart to " ++ path

end Notice

/-! ## 2. Values with notices -/

/-- A value and the notices that arose on the way to it. -/
structure Noted (β : Type) where
  value : β
  notices : List Notice

namespace Noted

variable {β γ : Type}

/-- A value with nothing to report. -/
def quiet (value : β) : Noted β := ⟨value, []⟩

/-- The same notices with another value. -/
def map (f : β → γ) (n : Noted β) : Noted γ := ⟨f n.value, n.notices⟩

/-- A list of noted values as one: the notices follow each other. -/
def all (ns : List (Noted β)) : Noted (List β) := ⟨ns.map value, ns.flatMap notices⟩

@[simp] theorem all_nil : all ([] : List (Noted β)) = quiet [] := rfl

@[simp] theorem value_all (ns : List (Noted β)) : (all ns).value = ns.map value := rfl

end Noted
end Graded
