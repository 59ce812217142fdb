/-
# Inference engines

An engine holds variables, each under its own name, and rules in order.  What it holds is always
in order: the names of the variables are distinct and every rule is acceptable.  Adding is
therefore the only way in, and what cannot be added is refused with a fault.

A variable is known by its declaration and not by its content.  Declaring the same variable again
changes nothing; another variable of the same name is refused, even if it says the same.

Adding several things goes on until one is refused.  What was added before it stays.
-/
import Graded.Rule
import Graded.Settings
import Graded.Vocabulary

namespace Graded

/-! ## 1. Declarations -/

/-- Where a variable was declared. -/
inductive Provenance where
  | vocabulary
  | own (serial : Nat)
  deriving DecidableEq, Repr

/-- A variable and where it was declared.  Two declarations of one name and one provenance are the
same. -/
structure Declared (α : Type) [Scalar α] where
  provenance : Provenance
  content : Variable α

namespace Declared

variable {α : Type} [Scalar α]

/-- The name of a declared variable. -/
def name (d : Declared α) : String := d.content.name

/-- A variable of the vocabulary, by its name. -/
def known (name : String) : Except (Fault α) (Declared α) :=
  (Vocabulary.find name).map fun v => ⟨.vocabulary, v⟩

end Declared

/-! ## 2. Engines -/

/-- Settings, variables and rules that fit together. -/
structure Engine (α : Type) [Scalar α] where
  settings : Settings α
  declared : List (Declared α)
  rules : List (Rule α)
  distinct : (declared.map (·.name)).Nodup
  accepted : ∀ r ∈ rules, r.fault? = none

namespace Engine

variable {α : Type} [Scalar α]

/-- An engine without variables and rules. -/
def empty (settings : Settings α) : Engine α := ⟨settings, [], [], by simp, by simp⟩

/-- The names of the variables, in the order in which they were declared. -/
def names (e : Engine α) : List String := e.declared.map (·.name)

/-- The declaration of a name. -/
def declaration? (e : Engine α) (name : String) : Option (Declared α) :=
  e.declared.find? fun d => d.name == name

/-- The variable of a name. -/
def find? (e : Engine α) (name : String) : Option (Variable α) :=
  (e.declaration? name).map (·.content)

/-- The variable of a name as an output, or the fault that there is none. -/
def output (e : Engine α) (name : String) : Except (Fault α) (Variable α) :=
  match e.find? name with
  | some v => .ok v
  | none => .error (.noOutput name)

/-- The rules that conclude on an output, in order. -/
def rulesFor (e : Engine α) (output : String) : List (Rule α) :=
  e.rules.filter fun r => r.conclusion.variableName == output

/-- A name has no declaration exactly if it is not among the names. -/
theorem declaration?_eq_none {e : Engine α} {name : String} :
    e.declaration? name = none ↔ name ∉ e.names := by
  simp only [declaration?, names, List.find?_eq_none, beq_iff_eq, List.mem_map, not_exists,
    not_and]

/-! ## 3. Adding -/

/-- The engine with one more variable. -/
def declare (e : Engine α) (d : Declared α) : Except (Fault α) (Engine α) :=
  match h : e.declaration? d.name with
  | some known => if known.provenance = d.provenance then .ok e else .error (.variableTaken d.name)
  | none =>
    .ok { e with
      declared := e.declared ++ [d]
      distinct := by
        have hn := declaration?_eq_none.mp h
        simp only [names] at hn
        simp only [List.map_append, List.map_cons, List.map_nil]
        exact List.nodup_append.mpr ⟨e.distinct, by simp, by
          intro a ha b hb hab
          simp only [List.mem_singleton] at hb
          exact hn (hb ▸ hab ▸ ha)⟩ }

/-- The engine with one more rule, at the end. -/
def addRule (e : Engine α) (r : Rule α) : Except (Fault α) (Engine α) :=
  match h : r.fault? with
  | some fault => .error fault
  | none =>
    .ok { e with
      rules := e.rules ++ [r]
      accepted := by
        intro s hs
        rcases List.mem_append.mp hs with hs | hs
        · exact e.accepted s hs
        · exact (List.mem_singleton.mp hs) ▸ h }

/-- Adds one thing after the other, up to the first that is refused. -/
def each {β : Type} (add : Engine α → β → Except (Fault α) (Engine α)) :
    Engine α → List β → Engine α × Option (Fault α)
  | e, [] => (e, none)
  | e, x :: xs => match add e x with
    | .ok e => each add e xs
    | .error fault => (e, some fault)

/-- The engine with more variables. -/
def declareAll (e : Engine α) (ds : List (Declared α)) : Engine α × Option (Fault α) :=
  each declare e ds

/-- The engine with more rules. -/
def addRules (e : Engine α) (rs : List (Rule α)) : Engine α × Option (Fault α) :=
  each addRule e rs

/-- Declaring a variable again changes nothing. -/
theorem declare_of_same {e : Engine α} {d known : Declared α}
    (h : e.declaration? d.name = some known) (ho : known.provenance = d.provenance) :
    e.declare d = .ok e := by
  unfold declare
  split
  · next k hk => rw [h] at hk; cases hk; rw [if_pos ho]
  · next hk => rw [h] at hk; cases hk

/-- An acceptable rule is put at the end. -/
theorem rules_addRule {e e' : Engine α} {r : Rule α} (h : e.addRule r = .ok e') :
    e'.rules = e.rules ++ [r] := by
  unfold addRule at h
  split at h
  · cases h
  · cases h; rfl

end Engine
end Graded
