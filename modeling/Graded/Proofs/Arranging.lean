/-
# Stable arrangements

To arrange a list by descending value is to put no element after one that it exceeds, and to keep
elements of one value in the order in which they were (`Arranged`).  These two conditions leave a
single list (`Arranged.unique`), so a list that satisfies them is what the sort makes of it
(`arranged_mergeSort`), however it came about.

That decides what a threshold does.  Of an arrangement, the elements that reach a threshold are a
prefix, and they are arranged too.  So raising the threshold before the sort takes the last elements
away after it, and changes nothing else (`Arranged.prefix_of_le`).
-/
import Graded.Proofs.Leading

namespace Graded

variable {β : Type} {value : β → ℝ} {l k k' : List β} {t t' : ℝ}

/-! ## 1. Arrangements -/

/-- The second list is the first one by descending value, elements of one value in their order. -/
structure Arranged (value : β → ℝ) (l k : List β) : Prop where
  descending : k.Pairwise fun a b => value b ≤ value a
  stable : ∀ y, k.filter (fun a => value a = y) = l.filter fun a => value a = y

/-- **An arrangement has the elements of the list**, each as often as the list has it. -/
theorem Arranged.perm (h : Arranged value l k) : k.Perm l := by
  classical
  rw [List.perm_iff_count]
  intro a
  have hcount : ∀ m : List β, (m.filter fun b => value b = value a).count a = m.count a := by
    intro m
    exact List.count_filter (by simp)
  rw [← hcount k, ← hcount l, h.stable]

theorem arranged_self (h : k.Pairwise fun a b => value b ≤ value a) : Arranged value k k :=
  ⟨h, fun _ => rfl⟩

/-- **There is one arrangement of a list.** -/
theorem Arranged.unique (h : Arranged value l k) (h' : Arranged value l k') : k = k' := by
  have hperm : k.Perm k' := h.perm.trans h'.perm.symm
  induction k generalizing l k' with
  | nil => exact hperm.nil_eq
  | cons a k ih =>
    cases k' with
    | nil => exact absurd hperm.symm.nil_eq (List.cons_ne_nil a k).symm
    | cons b k' =>
      obtain ⟨ha, hk⟩ := List.pairwise_cons.mp h.descending
      obtain ⟨hb, hk'⟩ := List.pairwise_cons.mp h'.descending
      -- neither of the two in front exceeds the other, so both stand for one value
      have hle : value b ≤ value a := by
        rcases List.mem_cons.mp (hperm.mem_iff.mpr List.mem_cons_self) with rfl | hmem
        · exact le_rfl
        · exact ha b hmem
      have hge : value a ≤ value b := by
        rcases List.mem_cons.mp (hperm.mem_iff.mp List.mem_cons_self) with rfl | hmem
        · exact le_rfl
        · exact hb a hmem
      have hstable : ∀ y, (a :: k).filter (fun c => value c = y) =
          (b :: k').filter fun c => value c = y := by
        intro y
        rw [h.stable, h'.stable]
      have hhead := hstable (value a)
      have hab : value b = value a := le_antisymm hle hge
      rw [List.filter_cons_of_pos (by simp), List.filter_cons_of_pos (by simp [hab])] at hhead
      obtain ⟨rfl, -⟩ := List.cons.inj hhead
      have hrest : Arranged value k k' := by
        refine ⟨hk', fun y => ?_⟩
        have heq := hstable y
        rw [List.filter_cons, List.filter_cons] at heq
        split_ifs at heq with hy
        · exact (List.cons.inj heq).2.symm
        · exact heq.symm
      rw [ih (arranged_self hk) hrest hrest.perm.symm]

/-- A stable sort arranges. -/
theorem arranged_mergeSort (value : β → ℝ) (l : List β) :
    Arranged value l (l.mergeSort fun a b => decide (value b ≤ value a)) := by
  set le : β → β → Bool := fun a b => decide (value b ≤ value a) with hle
  have htrans : ∀ a b c, le a b → le b c → le a c := by
    intro a b c hab hbc
    exact decide_eq_true ((of_decide_eq_true hbc).trans (of_decide_eq_true hab))
  have htotal : ∀ a b, le a b || le b a := by
    intro a b
    simpa [hle] using le_total (value b) (value a)
  constructor
  · refine (List.pairwise_mergeSort htrans htotal l).imp ?_
    intro a b hab
    exact of_decide_eq_true hab
  · intro y
    -- the elements of one value are in order already, so the sort keeps them as they are
    have hequal : (l.filter fun a => value a = y).Pairwise fun a b => le a b := by
      refine List.pairwise_of_forall_mem_list ?_
      intro a ha b hb
      have hya : value a = y := by simpa using (List.mem_filter.mp ha).2
      have hyb : value b = y := by simpa using (List.mem_filter.mp hb).2
      exact decide_eq_true (hyb.trans hya.symm).le
    have hsub := (List.sublist_mergeSort htrans htotal hequal List.filter_sublist).filter
      fun a => decide (value a = y)
    simp only [List.filter_filter, Bool.and_self] at hsub
    have hlength := ((List.mergeSort_perm l le).filter fun a => decide (value a = y)).length_eq
    exact (hsub.eq_of_length hlength.symm).symm

/-! ## 2. Thresholds -/

/-- Any part of an arrangement is the arrangement of that part. -/
theorem Arranged.filter (h : Arranged value l k) (p : β → Bool) :
    Arranged value (l.filter p) (k.filter p) := by
  constructor
  · exact h.descending.filter p
  · intro y
    rw [List.filter_comm, h.stable, List.filter_comm]

/-- What reaches a threshold comes first, wherever the comparison is transitive. -/
theorem filter_isPrefix {α : Type} [LE α] [DecidableLE α] {value : β → α}
    (htrans : ∀ {x y z : α}, x ≤ y → y ≤ z → x ≤ z)
    (h : k.Pairwise fun a b => value b ≤ value a) (t : α) :
    k.filter (fun a => t ≤ value a) <+: k := by
  induction k with
  | nil => exact List.nil_prefix
  | cons a k ih =>
    obtain ⟨ha, hk⟩ := List.pairwise_cons.mp h
    by_cases hta : t ≤ value a
    · rw [List.filter_cons_of_pos (by simpa using hta)]
      exact (List.prefix_cons_inj a).mpr (ih hk)
    · have hnone : (a :: k).filter (fun b => decide (t ≤ value b)) = [] := by
        refine List.filter_eq_nil_iff.mpr ?_
        intro b hb htb
        have htb : t ≤ value b := by simpa using htb
        rcases List.mem_cons.mp hb with rfl | hb
        · exact hta htb
        · exact hta (htrans htb (ha b hb))
      rw [hnone]
      exact List.nil_prefix

/-- **A higher threshold keeps a prefix.** -/
theorem Arranged.prefix_of_le (h : Arranged value (l.filter fun a => t ≤ value a) k)
    (h' : Arranged value (l.filter fun a => t' ≤ value a) k') (htt' : t ≤ t') : k' <+: k := by
  have hreach : (l.filter fun a => decide (t ≤ value a)).filter (fun a => decide (t' ≤ value a)) =
      l.filter fun a => decide (t' ≤ value a) := by
    rw [List.filter_filter]
    refine List.filter_congr ?_
    intro a _
    simpa using fun ha => htt'.trans ha
  have hpart := h.filter fun a => decide (t' ≤ value a)
  rw [hreach] at hpart
  rw [h'.unique hpart]
  exact filter_isPrefix le_trans h.descending t'

end Graded
