/-
# Operations put in place of operators

The settings of an engine name an operator for each role.  Any other operation of two arguments
can be put in its place.  It is not asked beforehand whether it fits: an operation that cannot be
done on what the role hands to it fails when it is used, and not before.

* `Operation.call` does an operation on two operands;
* `Chosen` is what plays a role, an operator of the family of the role or an operation in its
  place, and the functions after it are what each role asks of its player.

The norm and the conorm are handed degrees one by one.  The implication is handed the strength of
a rule and the row of degrees of a set, the accumulation two rows, and the defuzzifier the points
of a profile and their degrees.
-/
import Graded.Averaging
import Graded.Implication
import Graded.Norm
import Graded.Operand
import Graded.Profile

namespace Graded

/-! ## 1. Operations -/

/-- The operations of two arguments. -/
inductive Operation (α : Type) where
  | norm (t : TNorm α)
  | conorm (s : TConorm)
  | implication (i : Implication)
  /-- the complement, which has one argument only -/
  | complement
  /-- Sugeno's negation of the first argument with the second as its parameter -/
  | sugenoComplement
  /-- the first argument joined by the operator that is the second, from the given number on -/
  | joined (start : α)
  /-- the even weights for a number of values -/
  | evenWeights
  /-- the ordered average of values with weights -/
  | orderedAverage
  /-- the compensatory conjunction of values with an exponent -/
  | compensation
  /-- the choice of an operator from a list -/
  | choice
  /-- an operation with a parameter that it does not have -/
  | misapplied

namespace Operation

variable {α : Type} [Scalar α]

open Operand (one row combine)

/-- The norm that an operation is. -/
def norm? : Operation α → Option (TNorm α)
  | norm t => some t
  | _ => none

/-- The conorm that an operation is. -/
def conorm? : Operation α → Option TConorm
  | conorm s => some s
  | _ => none

/-- The implication that an operation is. -/
def implication? : Operation α → Option Implication
  | implication i => some i
  | _ => none

/-- Hamacher's quotient without a look at what it divides by. -/
def hamacherQuotient (gamma a b : α) : α := a * b / TNorm.hamacherDenominator gamma a b

/-- A norm on two operands. -/
def callNorm (t : TNorm α) (a b : Operand α) : Except (Fault α) (Operand α) :=
  match a, b with
  | one x, one y => (t.apply x y).map one
  | a, b => match t with
    | .minimum => do return if ← Operand.decideBoth (fun x y => y < x) a b then b else a
    | .product => combine (· * ·) a b
    | .lukasiewicz => do
      let sum ← combine (fun x y => x + y - 1) a b
      return if ← sum.decide (0 < ·) then sum else one 0
    | .drastic => do
      if ← a.decide (· == 1) then return b
      else if ← b.decide (· == 1) then return a
      else return one 0
    | .hamacher gamma => do
      if gamma == 0 then
        if ← a.decide (· == 0) then
          if ← b.decide (· == 0) then return one 0
        combine (hamacherQuotient gamma) a b
      else
        let den ← combine (TNorm.hamacherDenominator gamma) a b
        if ← den.decide (· == 0) then return one 0
        else combine (hamacherQuotient gamma) a b

/-- A conorm on two operands. -/
def callConorm (s : TConorm) (a b : Operand α) : Except (Fault α) (Operand α) :=
  match s with
  | .maximum => do return if ← Operand.decideBoth (fun x y => x < y) a b then b else a
  | .probabilisticSum => combine s.value a b
  | .lukasiewicz => do
    let sum ← combine (· + ·) a b
    return if ← sum.decide (· < 1) then sum else one 1
  | .drastic => do
    if ← a.decide (· == 0) then return b
    else if ← b.decide (· == 0) then return a
    else return one 1

/-- Sugeno's negation on two operands. -/
def callSugeno (a lam : Operand α) : Except (Fault α) (Operand α) := do
  if ← lam.decide (· ≤ -1) then throw (.badSugenoParameter (← lam.number))
  match a, lam with
  | one x, one l => (Graded.sugenoComplement x l).map one
  | a, lam => combine (fun x l => (1 - x) / (1 + l * x)) a lam

/-- The even weights, for which the count has to be a whole number.  A degree is none, so only no
weights at all can be given. -/
def callWeights (count kind : Operand α) : Except (Fault α) (Operand α) := do
  if ← count.decide (· ≤ 0) then return row []
  if ← count.decide fun x => Scalar.undefined x || Scalar.isInfinite x then throw .undecided
  let _ ← kind.decide fun _ => false
  throw .notNumber

/-- The ordered average of a row.  A single number is in no order. -/
def callAverage (values weights : Operand α) : Except (Fault α) (Operand α) :=
  match values, weights with
  | row [], _ => .ok (one 0)
  | _, one _ => .error .notList
  | one _, row _ => .error .noOrder
  | row xs, row ws => .ok (one (Graded.orderedAverage xs (some ws)))

/-- The compensatory conjunction of a row. -/
def callCompensation (values gamma : Operand α) : Except (Fault α) (Operand α) :=
  match values with
  | one _ => .error .notList
  | row [] => .ok (one 1)
  | row xs => do
    let g ← gamma.number
    let product := xs.foldl (· * ·) 1
    return one (Scalar.power product (1 - g) * Scalar.power (Scalar.mean xs) g)

/-- An operation on two operands. -/
def call (o : Operation α) (a b : Operand α) : Except (Fault α) (Operand α) :=
  match o with
  | norm t => callNorm t a b
  | conorm s => callConorm s a b
  | implication i => combine i.value a b
  | complement | misapplied => .error .argumentCount
  | sugenoComplement => callSugeno a b
  | joined start => match a with
    | one _ => .error .notList
    | row [] => .ok (one start)
    | row _ => .error .notOperator
  | evenWeights => callWeights a b
  | orderedAverage => callAverage a b
  | compensation => callCompensation a b
  | choice => match a with
    | one _ => .error .notName
    | row _ => .error .noEntry

/-- On two degrees an operation that is a norm does what the norm does. -/
theorem call_norm_one (t : TNorm α) (x y : α) :
    (norm t).call (one x) (one y) = (t.apply x y).map one := rfl

end Operation

/-! ## 2. Players of roles -/

/-- What plays a role: an operator of the role's family, or an operation in its place. -/
inductive Chosen (β α : Type) where
  | regular (operator : β)
  | foreign (operation : Operation α)

namespace Chosen

variable {α β : Type} [Scalar α]

/-- The name of a regular operator; another one where an operation is in its place. -/
def named (name : β → String) (fallback : String) : Chosen β α → String
  | regular o => name o
  | foreign _ => fallback

/-- The conjunction of a list of degrees, from 1 on. -/
def all (t : Chosen (TNorm α) α) (degrees : List α) : Except (Fault α) α :=
  match t with
  | regular t => t.all degrees
  | foreign o => do
    (← degrees.foldlM (fun joined mu => o.call joined (.one mu)) (.one 1)).number

/-- The disjunction of a list of degrees, from 0 on. -/
def any (s : Chosen TConorm α) (degrees : List α) : Except (Fault α) α :=
  match s with
  | regular s => .ok (s.any degrees)
  | foreign o => do
    (← degrees.foldlM (fun joined mu => o.call joined (.one mu)) (.one 0)).number

/-- The conjunction of two degrees. -/
def both (t : Chosen (TNorm α) α) (a b : α) : Except (Fault α) (Operand α) :=
  match t with
  | regular t => (t.apply a b).map .one
  | foreign o => o.call (.one a) (.one b)

/-- The disjunction of two degrees. -/
def either (s : Chosen TConorm α) (a b : α) : Except (Fault α) (Operand α) :=
  match s with
  | regular s => .ok (.one (s.value a b))
  | foreign o => o.call (.one a) (.one b)

/-- The degrees that a rule of some strength implies. -/
def imply (i : Chosen Implication α) (strength : α) (degrees : List α) :
    Except (Fault α) (List α) :=
  match i with
  | regular i => .ok (degrees.map (i.value strength))
  | foreign o => (o.call (.one strength) (.row degrees)).map Operand.toList

/-- The degrees accumulated so far with those that one more rule implies. -/
def accumulate (a : Chosen Accumulation α) (mu implied : List α) : Except (Fault α) (List α) :=
  match a with
  | regular a => Row.combine a.value mu implied
  | foreign o => (o.call (.ofList mu) (.row implied)).map Operand.toList

/-- The crisp value of a profile. -/
def defuzzify (z : Chosen Defuzzifier α) (p : Profile α) : Except (Fault α) (Noted α) :=
  match z with
  | regular z => z.apply p
  | foreign o => do return .quiet (← (← o.call (.row p.points) (.row p.degrees)).number)

@[simp] theorem all_regular (t : TNorm α) (degrees : List α) :
    (regular t : Chosen (TNorm α) α).all degrees = t.all degrees := rfl

@[simp] theorem any_regular (s : TConorm) (degrees : List α) :
    (regular s : Chosen TConorm α).any degrees = .ok (s.any degrees) := rfl

@[simp] theorem imply_regular (i : Implication) (strength : α) (degrees : List α) :
    (regular i : Chosen Implication α).imply strength degrees =
      .ok (degrees.map (i.value strength)) := rfl

/-- Profiles of equal length accumulate degree by degree. -/
theorem accumulate_regular (a : Accumulation) {mu implied : List α}
    (h : mu.length = implied.length) :
    (regular a : Chosen Accumulation α).accumulate mu implied =
      .ok (List.zipWith a.value mu implied) :=
  Row.combine_of_length_eq h

@[simp] theorem defuzzify_regular (z : Defuzzifier) (p : Profile α) :
    (regular z : Chosen Defuzzifier α).defuzzify p = z.apply p := rfl

end Chosen
end Graded
