/-
# Defining shapes

A shape is defined by the name of its kind and a list of numbers.  `make` takes any numbers, as
long as there are as many as the kind has parameters; `define` also insists that the parameters
make sense, so that the shape has a core and its slopes have a width.

`define` looks at the kind first, then at each number, then at how many there are, and last at
what they say.
-/
import Graded.Document.Number
import Graded.Document.Shown
import Graded.Shape

namespace Graded

namespace Shape

/-! ## 1. Kinds -/

/-- The kinds of shape. -/
inductive Kind where
  | triangular
  | trapezoidal
  | gaussian
  | bell
  | sigmoid
  | leftShoulder
  | rightShoulder
  | plateau
  deriving DecidableEq, Repr

namespace Kind

/-- The name of a kind in definitions. -/
def name : Kind → String
  | triangular => "triangular"
  | trapezoidal => "trapezoidal"
  | gaussian => "gaussian"
  | bell => "generalized_bell"
  | sigmoid => "sigmoid"
  | leftShoulder => "left_shoulder"
  | rightShoulder => "right_shoulder"
  | plateau => "pi_shaped"

/-- Every kind, in the order of the names. -/
def all : List Kind :=
  [gaussian, bell, leftShoulder, plateau, rightShoulder, sigmoid, trapezoidal, triangular]

theorem mem_all (k : Kind) : k ∈ all := by cases k <;> decide

/-- The kind of a name. -/
def ofName? (s : String) : Option Kind := all.find? fun k => k.name == s

theorem ofName?_name (k : Kind) : ofName? k.name = some k := by cases k <;> decide

/-- How many parameters a shape of the kind has. -/
def arity : Kind → Nat
  | gaussian | sigmoid | leftShoulder | rightShoulder => 2
  | triangular | bell => 3
  | trapezoidal | plateau => 4

end Kind

variable {α : Type}

/-- The kind of a shape. -/
def kind : Shape α → Kind
  | triangular .. => .triangular
  | trapezoidal .. => .trapezoidal
  | gaussian .. => .gaussian
  | bell .. => .bell
  | sigmoid .. => .sigmoid
  | leftShoulder .. => .leftShoulder
  | rightShoulder .. => .rightShoulder
  | plateau .. => .plateau

/-- The parameters of a shape. -/
def params : Shape α → List α
  | triangular a b c => [a, b, c]
  | trapezoidal a b c d => [a, b, c, d]
  | gaussian c s => [c, s]
  | bell w s c => [w, s, c]
  | sigmoid s c => [s, c]
  | leftShoulder a b => [a, b]
  | rightShoulder a b => [a, b]
  | plateau a b c d => [a, b, c, d]

theorem length_params (s : Shape α) : s.params.length = s.kind.arity := by cases s <;> rfl

/-! ## 2. From parameters to shapes -/

/-- The shape of a kind with the given parameters, if there are as many as it takes. -/
def make : Kind → List α → Option (Shape α)
  | .triangular, [a, b, c] => some (triangular a b c)
  | .trapezoidal, [a, b, c, d] => some (trapezoidal a b c d)
  | .gaussian, [c, s] => some (gaussian c s)
  | .bell, [w, s, c] => some (bell w s c)
  | .sigmoid, [s, c] => some (sigmoid s c)
  | .leftShoulder, [a, b] => some (leftShoulder a b)
  | .rightShoulder, [a, b] => some (rightShoulder a b)
  | .plateau, [a, b, c, d] => some (plateau a b c d)
  | _, _ => none

/-- Taking a shape apart and putting it together again changes nothing. -/
theorem make_params (s : Shape α) : make s.kind s.params = some s := by cases s <;> rfl

variable [Scalar α]

/-- What the parameters of a defined shape have to satisfy.  An undefined parameter fails every
comparison, so it passes where the condition is that a comparison fails. -/
def check (s : Shape α) : Except (Fault α) Unit :=
  match s with
  | triangular a b c =>
    if a < b && b < c then .ok () else .error (.disorder s.kind.name "a < b < c" s.params)
  | trapezoidal a b c d | plateau a b c d =>
    if a < b && b ≤ c && c < d then .ok ()
    else .error (.disorder s.kind.name "a < b <= c < d" s.params)
  | leftShoulder a b | rightShoulder a b =>
    if a < b then .ok () else .error (.disorder s.kind.name "a < b" s.params)
  | gaussian _ spread => if spread ≤ 0 then .error (.spreadNotPositive spread) else .ok ()
  | bell width _ _ => if width == 0 then .error .widthZero else .ok ()
  | sigmoid slope _ => if slope == 0 then .error .slopeZero else .ok ()

section

variable {a b c d : α}

theorem check_triangular : (triangular a b c).check = .ok () ↔ a < b ∧ b < c := by simp [check]

theorem check_trapezoidal : (trapezoidal a b c d).check = .ok () ↔ a < b ∧ b ≤ c ∧ c < d := by
  simp [check, and_assoc]

theorem check_plateau : (plateau a b c d).check = .ok () ↔ a < b ∧ b ≤ c ∧ c < d := by
  simp [check, and_assoc]

theorem check_leftShoulder : (leftShoulder a b).check = .ok () ↔ a < b := by simp [check]

theorem check_rightShoulder : (rightShoulder a b).check = .ok () ↔ a < b := by simp [check]

theorem check_gaussian : (gaussian a b).check = .ok () ↔ ¬ b ≤ 0 := by simp [check]

theorem check_bell : (bell a b c).check = .ok () ↔ (a == 0) = false := by simp [check]

theorem check_sigmoid : (sigmoid a b).check = .ok () ↔ (a == 0) = false := by simp [check]

end

/-- The shape of a definition. -/
def define (kind : String) (params : List (Document α)) : Except (Fault α) (Shape α) := do
  let some k := Kind.ofName? kind
    | throw (.unknownShape kind (Kind.all.map Kind.name))
  let numbers ← params.mapM Document.number
  let some s := make k numbers
    | throw (.parameterCount kind k.arity numbers.length)
  s.check
  return s

/-! ## 3. Comparing and writing definitions -/

/-- Two shapes are of one kind and have equal parameters. -/
def same (s t : Shape α) : Bool := s.kind == t.kind && s.params == t.params

/-- A definition as written in messages. -/
def text [Legible α] (s : Shape α) : String :=
  "MembershipFunction(" ++ Text.quoted s.kind.name ++ ", " ++ Document.group s.params ++ ")"

end Shape
end Graded
