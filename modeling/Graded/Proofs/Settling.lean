/-
# Documents without undefined numbers

Before a document is written, null takes the place of every undefined number in it.  `Settled` says
what this does without doing it: lists keep their items, objects keep their names whatever the order
of their members is, and all but the undefined numbers stays as it is.

Both parts of writing are settled in this sense, the replacement and the order of the members
(`settled_arranged`), and neither takes away that a document can be written, that it is not too
deep, or that there is an infinite number in it.  This holds in any arithmetic.
-/
import Graded.Proofs.Reading
import Graded.Proofs.Writing
import Graded.RunRecord

namespace Graded

open RunRecord

namespace Document

variable {α : Type} [Scalar α]

/-! ## 1. What becomes of undefined numbers -/

/-- The second document is the first one with null for every undefined number.  The order of the
members of an object does not count. -/
inductive Settled : Document α → Document α → Prop
  | undefined {x : α} : Scalar.undefined x = true → Settled (.real x) .null
  | real {x : α} : Scalar.undefined x = false → Settled (.real x) (.real x)
  | null : Settled .null .null
  | bool {b : Bool} : Settled (.bool b) (.bool b)
  | integer {n : Int} : Settled (.integer n) (.integer n)
  | text {s : String} : Settled (.text s) (.text s)
  | list {xs ys : List (Document α)} : List.Forall₂ Settled xs ys → Settled (.list xs) (.list ys)
  | object {ms ns : List (String × Document α)} : (ns.map (·.1)).Perm (ms.map (·.1)) →
      (∀ m ∈ ms, ∀ n ∈ ns, m.1 = n.1 → Settled m.2 n.2) → Settled (.object ms) (.object ns)

theorem settleItems_eq (xs : List (Document α)) : settleItems xs = xs.map settle := by
  induction xs with
  | nil => rfl
  | cons x xs ih => rw [settleItems, ih, List.map_cons]

theorem settleMembers_eq (ms : List (String × Document α)) :
    settleMembers ms = ms.map fun m => (m.1, settle m.2) := by
  induction ms with
  | nil => rfl
  | cons m ms ih => rw [settleMembers, ih, List.map_cons]

section

variable [Legible α] {words : Bool}

/-- **What is read is what was to be written**, with null for undefined numbers.  The names of each
object differ, or else a name would have lost all values but one. -/
theorem settled_arranged {d : Document α} (h : Writable words d) :
    Settled d (arranged (settle d)) := by
  induction h with
  | null => exact .null
  | bool => exact .bool
  | integer => exact .integer
  | text => exact .text
  | @real x =>
    rw [settle]
    split
    next hx => exact .undefined hx
    next hx => exact .real (Bool.eq_false_of_not_eq_true hx)
  | list _ ih =>
    rw [settle, arranged, arrangedItems_eq, settleItems_eq, List.map_map]
    exact .list (List.forall₂_map_right_iff.mpr (List.forall₂_same.mpr ih))
  | @object ms hnodup _ _ ih =>
    have hperm := sorted_perm (arrangedMembers (settleMembers ms))
    rw [settle, arranged]
    refine .object ?_ fun m hm n hn heq => ?_
    · refine (hperm.map _).trans ?_
      rw [arrangedMembers_eq, settleMembers_eq, List.map_map, List.map_map]
      exact .refl _
    · have hn := hperm.mem_iff.mp hn
      rw [arrangedMembers_eq, settleMembers_eq, List.map_map] at hn
      obtain ⟨m', hm', rfl⟩ := List.mem_map.mp hn
      obtain rfl : m = m' := List.inj_on_of_nodup_map hnodup hm hm' heq
      exact ih m hm

/-! ## 2. What it keeps -/

theorem Writable.settle {d : Document α} (h : Writable words d) :
    Writable words (RunRecord.settle d) := by
  induction h with
  | null => exact .null
  | bool => exact .bool
  | integer => exact .integer
  | text hs => exact .text hs
  | real hx =>
    rw [RunRecord.settle]
    split
    · exact .null
    · exact .real hx
  | list _ ih =>
    rw [RunRecord.settle, settleItems_eq]
    exact .list (List.forall_mem_map.mpr ih)
  | object hnodup hpaired _ ih =>
    rw [RunRecord.settle, settleMembers_eq]
    refine .object ?_ (List.forall_mem_map.mpr hpaired) (List.forall_mem_map.mpr ih)
    rwa [List.map_map]

end

theorem Fits.settle {levels : Nat} {d : Document α} (h : Fits levels d) :
    Fits levels (RunRecord.settle d) := by
  induction h with
  | null => exact .null
  | bool => exact .bool
  | integer hn => exact .integer hn
  | text => exact .text
  | real =>
    rw [RunRecord.settle]
    split
    · exact .null
    · exact .real
  | list _ ih =>
    rw [RunRecord.settle, settleItems_eq]
    exact .list (List.forall_mem_map.mpr ih)
  | object _ ih =>
    rw [RunRecord.settle, settleMembers_eq]
    exact .object (List.forall_mem_map.mpr ih)

omit [Scalar α] in
theorem Fits.arranged {levels : Nat} {d : Document α} (h : Fits levels d) :
    Fits levels (Document.arranged d) := by
  induction h with
  | null => exact .null
  | bool => exact .bool
  | integer hn => exact .integer hn
  | text => exact .text
  | real => exact .real
  | list _ ih =>
    rw [Document.arranged, arrangedItems_eq]
    exact .list (List.forall_mem_map.mpr ih)
  | object _ ih =>
    rw [Document.arranged, arrangedMembers_eq]
    refine .object fun m hm => ?_
    obtain ⟨m', hm', rfl⟩ := List.mem_map.mp ((sorted_perm _).mem_iff.mp hm)
    exact ih m' hm'

theorem Contains.settle {x : α} {d : Document α} (h : Contains x d)
    (hx : Scalar.undefined x = false) : Contains x (RunRecord.settle d) := by
  induction h with
  | real =>
    rw [RunRecord.settle, hx, if_neg Bool.false_ne_true]
    exact .real
  | list hd _ ih =>
    rw [RunRecord.settle, settleItems_eq]
    exact .list (List.mem_map_of_mem hd) ih
  | object hm _ ih =>
    rw [RunRecord.settle, settleMembers_eq]
    exact .object (List.mem_map_of_mem hm) ih

end Document
end Graded
