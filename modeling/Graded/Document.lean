/-
# Documents

Evaluation cases, settings and records of runs come and go as documents: nested lists and objects
over nulls, truth values, whole numbers, reals and texts.  Whole numbers are kept apart from
reals, because a document writes them differently, but they compare by value.

* `same` is equality by value: `1`, `1.0` and `true` are one value, and the order of an object's
  members does not count;
* `atMost` is the order of numbers by value;
* `holds` is what counts as something rather than nothing.
-/
import Graded.Keyed
import Graded.Scalar

namespace Graded

/-- A document.  An object's members have distinct names. -/
inductive Document (α : Type) where
  | null
  | bool (value : Bool)
  | integer (value : Int)
  | real (value : α)
  | text (value : String)
  | list (items : List (Document α))
  | object (members : List (String × Document α))
  deriving Inhabited

namespace Document

variable {α : Type} [Scalar α]

/-! ## 1. Numbers in documents -/

/-- A real has the value of a whole number. -/
def isInteger (x : α) (n : Int) : Bool := x == (n : α) && Scalar.truncate x == some n

/-- The whole number a truth value stands for. -/
def ofBool (b : Bool) : Int := if b then 1 else 0

/-! ## 2. Equality by value

An undefined number differs from every number, but a list that holds one is equal to itself: in
lists and objects the undefined numbers are taken for one. -/

/-- The undefined number. -/
def isUndefined : Document α → Bool
  | real x => Scalar.undefined x
  | _ => false

mutual

/-- Equality by value. -/
def same : Document α → Document α → Bool
  | null, d => match d with
    | null => true
    | _ => false
  | bool b, d => match d with
    | bool c => b == c
    | integer n => ofBool b == n
    | real x => isInteger x (ofBool b)
    | _ => false
  | integer m, d => match d with
    | bool c => m == ofBool c
    | integer n => m == n
    | real x => isInteger x m
    | _ => false
  | real x, d => match d with
    | bool c => isInteger x (ofBool c)
    | integer n => isInteger x n
    | real y => x == y
    | _ => false
  | text s, d => match d with
    | text t => s == t
    | _ => false
  | list xs, d => match d with
    | list ys => sameItems xs ys
    | _ => false
  | object xs, d => match d with
    | object ys => xs.length == ys.length && sameMembers xs ys
    | _ => false

/-- Two lists are equal item by item. -/
def sameItems : List (Document α) → List (Document α) → Bool
  | [], ys => ys.isEmpty
  | x :: xs, ys => match ys with
    | [] => false
    | y :: ys => (same x y || (isUndefined x && isUndefined y)) && sameItems xs ys

/-- Each member has an equal one under its name in the other object. -/
def sameMembers : List (String × Document α) → List (String × Document α) → Bool
  | [], _ => true
  | (k, x) :: xs, ys => (match ys.lookup k with
    | some y => same x y || (isUndefined x && isUndefined y)
    | none => false) && sameMembers xs ys

end

/-! ## 3. Order by value -/

/-- A whole number is at most a real. -/
def wholeAtMost (n : Int) (x : α) : Bool :=
  match Scalar.truncate x with
  | some t => n < t || (n == t && (n : α) ≤ x)
  | none => 0 < x

/-- A real is at most a whole number. -/
def realAtMost (x : α) (n : Int) : Bool :=
  match Scalar.truncate x with
  | some t => t < n || (n == t && x ≤ (n : α))
  | none => x < 0

/-- A number is at most another one, in value.  What is no number is in no order. -/
def atMost : Document α → Document α → Bool
  | real x, real y => x ≤ y
  | real x, integer n => realAtMost x n
  | real x, bool b => realAtMost x (ofBool b)
  | integer m, real y => wholeAtMost m y
  | integer m, integer n => m ≤ n
  | integer m, bool b => m ≤ ofBool b
  | bool b, real y => wholeAtMost (ofBool b) y
  | bool b, integer n => ofBool b ≤ n
  | bool b, bool c => ofBool b ≤ ofBool c
  | _, _ => false

/-! ## 4. Something rather than nothing -/

/-- Null, false, zero and whatever is empty count as nothing. -/
def holds : Document α → Bool
  | null => false
  | bool b => b
  | integer n => n != 0
  | real x => x != 0
  | text s => !s.isEmpty
  | list xs => !xs.isEmpty
  | object ms => !ms.isEmpty

/-- The member of an object under a name; other documents have none. -/
def member? (d : Document α) (key : String) : Option (Document α) :=
  match d with
  | object ms => ms.lookup key
  | _ => none

end Document
end Graded
