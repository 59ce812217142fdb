/-
# Inference

An inference reads its inputs off the variables, lets the rules for the output fire, accumulates
what they imply into one profile over the domain of the output, and defuzzifies the profile.

Inputs under names that are no variables are passed over.  All others are fuzzified, also those that
no rule asks for, so that a variable with a set beyond the arithmetic takes no input.  A rule that
does not fire implies nothing, so its conclusion is not looked at.  If nothing at all is implied,
the answer is the middle of the domain, and that is reported.
-/
import Graded.Engine
import Graded.Profile

namespace Graded

variable {α : Type} [Scalar α]

/-! ## 1. Firing -/

/-- A rule and how strongly it fires. -/
structure Firing (α : Type) where
  rule : Rule α
  strength : α

namespace Engine

/-- The memberships of the inputs in the sets of their variables. -/
def fuzzify (e : Engine α) (inputs : Keyed α) : Readings α :=
  inputs.filterMap fun (name, x) => (e.find? name).map fun v => (name, v.fuzzify x)

/-- What is read of a name: the first input of that name, if there is a variable of that name. -/
theorem lookup_fuzzify (e : Engine α) (inputs : Keyed α) (name : String) :
    (e.fuzzify inputs).lookup name =
      (e.find? name).bind fun v => (inputs.lookup name).map v.fuzzify := by
  unfold fuzzify
  induction inputs with
  | nil => cases e.find? name <;> rfl
  | cons given inputs ih =>
    obtain ⟨key, x⟩ := given
    cases hv : e.find? key with
    | none =>
      rw [List.filterMap_cons_none (by simp [hv]), ih, List.lookup_cons]
      cases hkey : name == key with
      | true => simp [eq_of_beq hkey, hv]
      | false => rfl
    | some v =>
      rw [List.filterMap_cons_some (b := (key, v.fuzzify x)) (by simp [hv]), List.lookup_cons,
        List.lookup_cons, ih]
      cases hkey : name == key with
      | true => simp [eq_of_beq hkey, hv]
      | false => rfl

/-- Some input is a value of a variable that cannot be fuzzified. -/
def tooWide (e : Engine α) (inputs : Keyed α) : Bool :=
  inputs.any fun (name, _) => (e.find? name).any (·.tooWide)

/-- The memberships of the inputs.  Every input of a variable is fuzzified, whether a rule asks for
it or not. -/
def fuzzify? (e : Engine α) (inputs : Keyed α) : Except (Fault α) (Readings α) :=
  if e.tooWide inputs then .error .overflow else .ok (e.fuzzify inputs)

/-- How strongly a rule fires. -/
def strength (e : Engine α) (r : Rule α) (readings : Readings α) : Except (Fault α) α :=
  r.strength e.settings.norm e.settings.conorm readings

/-- The rules for an output with their strengths. -/
def firings (e : Engine α) (readings : Readings α) (output : String) :
    Except (Fault α) (List (Firing α)) :=
  (e.rulesFor output).mapM fun r => (e.strength r readings).map (⟨r, ·⟩)

/-! ## 2. Accumulating -/

/-- The degrees at the given points with those added that one rule implies. -/
def accumulate (e : Engine α) (v : Variable α) (xs mu : List α) (f : Firing α) :
    Except (Fault α) (List α) :=
  if f.strength == 0 then .ok mu
  else do
    let s ← v.set f.rule.conclusion.setName
    let degrees ← s.sample? xs
    e.settings.accumulation.accumulate mu (← e.settings.implication.imply f.strength degrees)

/-- The profile that rules imply on a variable.  It is cut off only at the end. -/
def aggregate (e : Engine α) (firings : List (Firing α)) (v : Variable α) :
    Except (Fault α) (Profile α) := do
  let xs := v.points e.settings.resolution
  let mu ← firings.foldlM (e.accumulate v xs) (xs.map fun _ => 0)
  return ⟨xs, mu.map Scalar.clamp⟩

/-- Without rules the profile is 0 everywhere. -/
theorem aggregate_nil (e : Engine α) (v : Variable α) :
    e.aggregate [] v = .ok ⟨v.points e.settings.resolution,
      ((v.points e.settings.resolution).map fun _ => (0 : α)).map Scalar.clamp⟩ := rfl

end Engine

/-! ## 3. Inference -/

/-- What comes of an inference. -/
structure Inference (α : Type) where
  crisp : α
  /-- the rules for the output by their names, with their strengths -/
  fired : List (String × α)
  profile : Profile α

namespace Engine

/-- The crisp value of a profile on an output; the middle of the domain if the profile is nowhere
positive. -/
def settle (e : Engine α) (v : Variable α) (output : String) (p : Profile α) :
    Except (Fault α) (Noted α) :=
  if p.degrees.any (0 < ·) then e.settings.defuzzifier.defuzzify p
  else .ok ⟨v.midpoint, [.noRuleFired output]⟩

/-- Infers a crisp value of an output from crisp inputs. -/
def infer (e : Engine α) (inputs : Keyed α) (output : String) :
    Except (Fault α) (Noted (Inference α)) := do
  let v ← e.output output
  let readings ← e.fuzzify? inputs
  let firings ← e.firings readings output
  let p ← e.aggregate firings v
  let crisp ← e.settle v output p
  return crisp.map fun x => ⟨x, firings.map fun f => (f.rule.id, f.strength), p⟩

/-- There is no inference to an output that is not declared. -/
theorem infer_of_not_declared {e : Engine α} {inputs : Keyed α} {output : String}
    (h : e.find? output = none) : e.infer inputs output = .error (.noOutput output) := by
  simp [infer, Engine.output, h, bind, Except.bind]

end Engine
end Graded
