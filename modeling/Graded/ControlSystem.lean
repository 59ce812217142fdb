/-
# Control systems

The rules for one output written out in full: the variables that the rules speak of with their
sets sampled, and each rule with its conditions as a tree.  A control system says everything that
is needed to compute the output without the engine, and it can be shown.

An inference looks at a conclusion only if its rule fires, and reads an unknown condition as 0.  A
control system has to be whole: whatever its rules name has to be there.
-/
import Graded.Engine

namespace Graded

/-! ## 1. Clauses -/

/-- Conditions joined into a tree. -/
inductive Clause where
  | term (variableName setName : String)
  | not (clause : Clause)
  | and (left right : Clause)
  | or (left right : Clause)
  deriving DecidableEq, Repr

namespace Clause

/-- The clause of one condition. -/
def ofCondition (c : Condition) : Clause :=
  let base := term c.variableName c.setName
  if c.negated then not base else base

/-- Two clauses joined. -/
def join (connective : Connective) (a b : Clause) : Clause :=
  match connective with
  | .and => and a b
  | _ => or a b

/-- Conditions joined from the left, if there are any. -/
def ofConditions? (connective : Connective) : List Condition → Option Clause
  | [] => none
  | c :: cs => some (cs.foldl (fun t c => join connective t (ofCondition c)) (ofCondition c))

/-- A set of a variable as it is written. -/
def termText (variableName setName : String) : String := variableName ++ "[" ++ setName ++ "]"

/-- A clause inside another: everything but a single term stands in parentheses. -/
def inner (clause : Clause) (text : String) : String :=
  match clause with
  | term .. => text
  | _ => "(" ++ text ++ ")"

/-- A clause as it is written. -/
def text : Clause → String
  | term v s => termText v s
  | not c => "NOT-" ++ inner c (text c)
  | and a b => inner a (text a) ++ " AND " ++ inner b (text b)
  | or a b => inner a (text a) ++ " OR " ++ inner b (text b)

example : (ofConditions? .and [⟨"a", "x", false⟩, ⟨"b", "y", false⟩, ⟨"c", "z", true⟩]).map text =
    some "(a[x] AND b[y]) AND (NOT-c[z])" := by decide +kernel

end Clause

/-! ## 2. Control systems -/

/-- A variable with its sets sampled over its domain. -/
structure SampledVariable (α : Type) where
  label : String
  points : List α
  terms : List (String × List α)

/-- A rule written out.  The weight is attached only if it is not 1. -/
structure ControlRule (α : Type) where
  label : String
  antecedent : Clause
  consequent : Conclusion
  attached : Option α

/-- The rules for one output, with the name of the method that defuzzifies it.  Without
rules there is nothing that they speak of. -/
structure ControlSystem (α : Type) where
  antecedents : List (SampledVariable α)
  consequents : List (SampledVariable α)
  method : String
  norm : Chosen (TNorm α) α
  conorm : Chosen TConorm α
  rules : List (ControlRule α)

variable {α : Type} [Scalar α]

namespace ControlRule

/-- The weight of a rule. -/
def weight (r : ControlRule α) : α := r.attached.getD 1

end ControlRule

namespace Variable

/-- A variable with its sets sampled. -/
def sampled (v : Variable α) (steps : Nat) : SampledVariable α :=
  let xs := v.points steps
  ⟨v.name, xs, v.sets.map fun s => (s.name, s.sample xs)⟩

/-- A variable with its sets sampled, unless one of them is beyond the arithmetic. -/
def sampled? (v : Variable α) (steps : Nat) : Except (Fault α) (SampledVariable α) :=
  if v.tooWide then .error .overflow else .ok (v.sampled steps)

/-- The variable has a set of the name. -/
def demand (v : Variable α) (setName : String) : Except (Fault α) Unit :=
  if (v.set? setName).isSome then .ok () else .error (.noTerm v.name setName)

end Variable

namespace Engine

/-! ## 3. Writing out the rules of an engine -/

/-- The variables in the conditions of rules, each once, sorted. -/
def conditionNames (rules : List (Rule α)) : List String :=
  ((rules.flatMap fun r => r.conditions.map (·.variableName)).eraseDups).mergeSort fun a b =>
    decide (a ≤ b)

/-- The variable of a name in a condition, or the fault that there is none. -/
def antecedent (e : Engine α) (name : String) : Except (Fault α) (Variable α) :=
  match e.find? name with
  | some v => .ok v
  | none => .error (.unregistered name)

/-- The variable of a name in a condition, with its sets sampled. -/
def sampledAntecedent (e : Engine α) (name : String) : Except (Fault α) (SampledVariable α) := do
  (← e.antecedent name).sampled? e.settings.resolution

/-- The variable and the set of a condition are there. -/
def demandCondition (e : Engine α) (c : Condition) : Except (Fault α) Unit := do
  (← e.antecedent c.variableName).demand c.setName

/-- One rule written out.  Its conditions are looked at before its conclusion. -/
def controlRule (e : Engine α) (output : Variable α) (r : Rule α) :
    Except (Fault α) (ControlRule α) := do
  r.conditions.forM e.demandCondition
  let some clause := Clause.ofConditions? r.connective r.conditions | throw .noTerms
  output.demand r.conclusion.setName
  return ⟨r.id, clause, r.conclusion, if r.weight == 1 then none else some r.weight⟩

/-- The first label that occurs again. -/
def repeatedLabel? : List String → Option String
  | [] => none
  | l :: ls => if ls.contains l then some l else repeatedLabel? ls

/-- The control system of an output.  A rule is put in if the labels of the rules that are there
differ, so only the last one may repeat a label. -/
def controlSystem (e : Engine α) (output : String) : Except (Fault α) (ControlSystem α) := do
  let v ← e.output output
  let rules := e.rulesFor output
  let antecedents ← (conditionNames rules).mapM e.sampledAntecedent
  let consequent ← v.sampled? e.settings.resolution
  let written ← rules.mapM (e.controlRule v)
  match repeatedLabel? (written.dropLast.map (·.label)) with
  | some label => throw (.labelTaken label)
  | none =>
    return ⟨antecedents, if rules.isEmpty then [] else [consequent],
      e.settings.defuzzifier.named Defuzzifier.name Defuzzifier.centroid.name,
      e.settings.norm, e.settings.conorm, written⟩

end Engine
end Graded
