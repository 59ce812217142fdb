/-
# Similarity as a measure

The similarity of two titles is 1 less the share of the longer one that has to be edited.  In exact
arithmetic that is one formula (`likeness_eq`).  The two cases that are decided before it, equal
titles and titles of which one is empty, are what the formula gives anyway, even for two empty ones.

So what is known of the edit distance says everything.  It is symmetric, it is 0 for equal texts
only, and it never exceeds the longer length; between a text and a part of it, it is what their
lengths differ by (`distance_of_part`).  All of these are alignments written down, and a bound on
the lengths of aligned texts.
-/
import Graded.Proofs.Editing
import Graded.Proofs.Exact
import Graded.Proofs.LowerCase

namespace Graded
namespace Title

/-! ## 1. The edit distance -/

section

variable {γ : Type} [DecidableEq γ] {s t : List γ} {n : Nat}

/-- Some alignment has as many places as the distance says. -/
theorem aligned_distance (s t : List γ) : Aligned s t (distance s t) := by
  have h := (aligned_gap s.reverse t.reverse).reverse
  rwa [List.reverse_reverse, List.reverse_reverse, ← distance_eq_gap] at h

/-- No alignment has fewer. -/
theorem distance_le (h : Aligned s t n) : distance s t ≤ n := by
  rw [distance_eq_gap]
  exact gap_le h.reverse

theorem distance_comm (s t : List γ) : distance s t = distance t s :=
  le_antisymm (distance_le (aligned_distance t s).swap) (distance_le (aligned_distance s t).swap)

omit [DecidableEq γ] in
/-- Texts that differ nowhere are equal. -/
theorem Aligned.eq_of_zero (h : Aligned s t n) (hn : n = 0) : s = t := by
  induction h with
  | nil => rfl
  | same a _ ih => rw [ih hn]
  | other | left | right => exact absurd hn (Nat.succ_ne_zero _)

theorem distance_eq_zero_iff : distance s t = 0 ↔ s = t := by
  constructor
  · intro h
    exact (aligned_distance s t).eq_of_zero h
  · rintro rfl
    exact Nat.le_zero.mp (distance_le (.refl s))

omit [DecidableEq γ] in
/-- Texts can be written under each other from the front on, like or not. -/
theorem exists_aligned_le (s t : List γ) : ∃ n ≤ max s.length t.length, Aligned s t n := by
  induction s generalizing t with
  | nil => exact ⟨t.length, le_max_right _ _, .right_alone t⟩
  | cons a s ih =>
    cases t with
    | nil => exact ⟨(a :: s).length, le_max_left _ _, .left_alone (a :: s)⟩
    | cons b t =>
      obtain ⟨n, hn, h⟩ := ih t
      refine ⟨n + 1, ?_, .other a b h⟩
      simp only [List.length_cons]
      omega

theorem distance_le_max (s t : List γ) : distance s t ≤ max s.length t.length := by
  obtain ⟨n, hn, h⟩ := exists_aligned_le s t
  exact (distance_le h).trans hn

/-- **From a part to the whole** everything else is inserted, and that is best. -/
theorem distance_of_part (h : s <:+: t) : distance s t = t.length - s.length := by
  obtain ⟨front, back, rfl⟩ := h
  have haligned := ((Aligned.right_alone front).append (.refl s)).append (.right_alone back)
  rw [List.nil_append, List.append_nil] at haligned
  have hle := distance_le haligned
  have hge := (aligned_distance s (front ++ s ++ back)).length_le.2
  simp only [List.length_append] at hge ⊢
  omega

end

/-! ## 2. Likeness -/

variable {a b : List Char}

theorem eq_of_max_length (h : max a.length b.length = 0) : a = b := by
  have ha : a = [] := List.length_eq_zero_iff.mp (by omega)
  have hb : b = [] := List.length_eq_zero_iff.mp (by omega)
  exact ha.trans hb.symm

/-- **Likeness, by one formula.** -/
theorem likeness_eq (a b : List Char) :
    (likeness a b : ℝ) = 1 - (distance a b : ℝ) / ((max a.length b.length : ℕ) : ℝ) := by
  unfold likeness
  split_ifs with heq hnil
  · rw [distance_eq_zero_iff.mpr heq, Nat.cast_zero, zero_div, sub_zero]
  · -- with nothing on one side all of the other has to be edited
    have hlong : max a.length b.length ≠ 0 := mt eq_of_max_length heq
    have hdist : distance a b = max a.length b.length := by
      have hle := distance_le_max a b
      have hge := (aligned_distance a b).length_le
      rcases Bool.or_eq_true _ _ |>.mp hnil with h | h
      · have ha : a.length = 0 := by simpa using h
        omega
      · have hb : b.length = 0 := by simpa using h
        omega
    rw [hdist, div_self (Nat.cast_ne_zero.mpr hlong), sub_self]
  · rfl

theorem likeness_comm (a b : List Char) : (likeness a b : ℝ) = likeness b a := by
  rw [likeness_eq, likeness_eq, distance_comm, max_comm]

theorem likeness_mem (a b : List Char) : (likeness a b : ℝ) ∈ unitInterval := by
  have hle : (distance a b : ℝ) ≤ ((max a.length b.length : ℕ) : ℝ) :=
    Nat.cast_le.mpr (distance_le_max a b)
  rw [likeness_eq]
  exact ⟨sub_nonneg.mpr (div_le_one_of_le₀ hle (Nat.cast_nonneg _)),
    sub_le_self _ (div_nonneg (Nat.cast_nonneg _) (Nat.cast_nonneg _))⟩

theorem likeness_eq_one_iff : (likeness a b : ℝ) = 1 ↔ a = b := by
  rw [likeness_eq, sub_eq_self, div_eq_zero_iff, Nat.cast_eq_zero, Nat.cast_eq_zero,
    distance_eq_zero_iff]
  constructor
  · rintro (h | h)
    · exact h
    · exact eq_of_max_length h
  · exact .inl

/-- The likeness of a part and the whole is the ratio of their lengths. -/
theorem likeness_of_part (h : a <:+: b) (ha : a ≠ []) :
    (likeness a b : ℝ) = a.length / b.length := by
  have hle : a.length ≤ b.length := h.length_le
  have hpos : 0 < a.length := List.length_pos_iff.mpr ha
  have hb : (b.length : ℝ) ≠ 0 := Nat.cast_ne_zero.mpr (by omega)
  rw [likeness_eq, distance_of_part h, max_eq_right hle, Nat.cast_sub hle, sub_div, div_self hb,
    sub_sub_cancel]

/-! ## 3. Similarity -/

end Title
end Graded
