/-
# Weights on numbers in descending order

An ordered average sorts its values and gives a weight to each place (`weighted`).  What becomes of
it is decided by the partial sums of the weights, and not by the weights themselves: the sum is
rearranged so that each partial sum multiplies the step from one value down to the next.

* If no partial sum is negative, the values get at least what their lower bound would get from all
  of the weights (`mul_le_weighted`).
* Values that are 1 up to a place and 0 after it get the partial sum at that place
  (`weighted_upTo`).

So weights that add up to 1 never leave a list of values below its least one exactly if their
partial sums are never negative (`least_iff`), and never exceed its greatest one exactly if these
sums are at most 1 (`greatest_iff`).  The weights may well be negative.
-/
import Graded.Proofs.Arranging

namespace Graded

variable {ws xs : List ℝ} {c l m : ℝ} {k n : ℕ}

/-! ## 1. Descending values -/

namespace Scalar

theorem descending_eq (xs : List ℝ) :
    descending xs = xs.mergeSort fun a b => decide (b ≤ a) := by
  simp [descending]

theorem descending_perm (xs : List ℝ) : (descending xs).Perm xs := by
  rw [descending_eq]
  exact List.mergeSort_perm _ _

theorem pairwise_descending (xs : List ℝ) : (descending xs).Pairwise (· ≥ ·) := by
  rw [descending_eq]
  exact (arranged_mergeSort id xs).descending

theorem descending_of_pairwise (h : xs.Pairwise (· ≥ ·)) : descending xs = xs := by
  rw [descending_eq]
  refine List.mergeSort_of_pairwise (h.imp ?_)
  intro a b hab
  exact decide_eq_true hab

end Scalar

/-- Where there are values, one of them is the least and one the greatest. -/
theorem exists_bounds (h : xs ≠ []) : ∃ l ∈ xs, ∃ m ∈ xs, ∀ x ∈ xs, l ≤ x ∧ x ≤ m := by
  have hne : xs.toFinset.Nonempty := by simpa [Finset.nonempty_iff_ne_empty] using h
  obtain ⟨l, hl, hle⟩ := xs.toFinset.exists_min_image id hne
  obtain ⟨m, hm, hge⟩ := xs.toFinset.exists_max_image id hne
  simp only [List.mem_toFinset, id_eq] at hl hle hm hge
  exact ⟨l, hl, m, hm, fun x hx => ⟨hle x hx, hge x hx⟩⟩

/-! ## 2. Weighted sums -/

/-- The sum of the values, each times its weight. -/
def weighted (ws xs : List ℝ) : ℝ := (List.zipWith (· * ·) ws xs).sum

@[simp] theorem weighted_nil (xs : List ℝ) : weighted [] xs = 0 := rfl

@[simp] theorem weighted_cons (w x : ℝ) (ws xs : List ℝ) :
    weighted (w :: ws) (x :: xs) = w * x + weighted ws xs := by
  simp [weighted]

theorem weighted_neg (ws xs : List ℝ) : weighted (ws.map Neg.neg) xs = -weighted ws xs := by
  induction ws generalizing xs with
  | nil => simp
  | cons w ws ih =>
    cases xs with
    | nil => simp [weighted]
    | cons x xs =>
      rw [List.map_cons, weighted_cons, weighted_cons, ih]
      ring

/-- The values 1 up to a place and 0 after it. -/
def upTo (n k : ℕ) : List ℝ := List.replicate k 1 ++ List.replicate (n - k) 0

theorem length_upTo (h : k ≤ n) : (upTo n k).length = n := by
  simp [upTo, h]

theorem mem_upTo {x : ℝ} (h : x ∈ upTo n k) : x = 1 ∨ x = 0 := by
  rcases List.mem_append.mp h with h | h
  · exact .inl (List.eq_of_mem_replicate h)
  · exact .inr (List.eq_of_mem_replicate h)

theorem pairwise_upTo (n k : ℕ) : (upTo n k).Pairwise (· ≥ ·) := by
  refine List.pairwise_append.mpr ⟨?_, ?_, ?_⟩
  · exact List.pairwise_replicate.mpr (.inr le_rfl)
  · exact List.pairwise_replicate.mpr (.inr le_rfl)
  · intro x hx y hy
    rw [List.eq_of_mem_replicate hx, List.eq_of_mem_replicate hy]
    exact zero_le_one

/-- **What values of 1 up to a place get** is the partial sum of the weights. -/
theorem weighted_upTo (ws : List ℝ) (k : ℕ) :
    weighted ws (upTo ws.length k) = (ws.take k).sum := by
  have hzero : ∀ (ws : List ℝ) n, weighted ws (List.replicate n 0) = 0 := by
    intro ws n
    induction ws generalizing n with
    | nil => rfl
    | cons w ws ih =>
      cases n with
      | zero => rfl
      | succ n => rw [List.replicate_succ, weighted_cons, ih, mul_zero, add_zero]
  induction ws generalizing k with
  | nil => simp
  | cons w ws ih =>
    cases k with
    | zero => exact hzero _ _
    | succ k =>
      have hcons : upTo (w :: ws).length (k + 1) = 1 :: upTo ws.length k := by
        simp [upTo, List.replicate_succ]
      rw [hcons, weighted_cons, ih, List.take_succ_cons, List.sum_cons, mul_one]

theorem weighted_descending_upTo (ws : List ℝ) (k : ℕ) :
    weighted ws (Scalar.descending (upTo ws.length k)) = (ws.take k).sum := by
  rw [Scalar.descending_of_pairwise (pairwise_upTo _ _), weighted_upTo]

/-! ## 3. Partial sums -/

/-- **Partial sums that are never negative** give descending values at least what their lower bound
would get.  The weight `c` stands for the places before the list, with values of `m` or more. -/
theorem mul_le_weighted (hlength : ws.length = xs.length)
    (hpartial : ∀ k, 0 ≤ c + (ws.take k).sum) (hsorted : (m :: xs).Pairwise (· ≥ ·))
    (hl : ∀ x ∈ m :: xs, l ≤ x) : (c + ws.sum) * l ≤ c * m + weighted ws xs := by
  have hc : 0 ≤ c := by simpa using hpartial 0
  induction ws generalizing c m xs with
  | nil =>
    have hlm : l ≤ m := hl m List.mem_cons_self
    simpa using mul_le_mul_of_nonneg_left hlm hc
  | cons w ws ih =>
    cases xs with
    | nil => cases hlength
    | cons x xs =>
      obtain ⟨hm, hsorted⟩ := List.pairwise_cons.mp hsorted
      -- the step from `m` down to `x` has the weight that is carried so far
      have hstep : c * x ≤ c * m := mul_le_mul_of_nonneg_left (hm x List.mem_cons_self) hc
      have hpartial' : ∀ k, 0 ≤ c + w + (ws.take k).sum := by
        intro k
        simpa [add_assoc] using hpartial (k + 1)
      have hrest := ih (Nat.succ.inj hlength) hpartial' hsorted
        (fun y hy => hl y (List.mem_cons_of_mem _ hy)) (by simpa using hpartial' 0)
      rw [List.sum_cons, weighted_cons]
      linarith

/-- The same of values in any order, between bounds. -/
theorem mul_le_weighted_descending {values : List ℝ} (hlength : values.length = ws.length)
    (hpartial : ∀ k, 0 ≤ c + (ws.take k).sum) (hl : ∀ x ∈ values, l ≤ x) (hm : ∀ x ∈ values, x ≤ m)
    (hlm : l ≤ m) : (c + ws.sum) * l ≤ c * m + weighted ws (Scalar.descending values) := by
  have hmem : ∀ x ∈ Scalar.descending values, x ∈ values := by
    intro x hx
    exact (Scalar.descending_perm values).mem_iff.mp hx
  refine mul_le_weighted (by simp [hlength]) hpartial ?_ ?_
  · exact List.pairwise_cons.mpr ⟨fun x hx => hm x (hmem x hx), Scalar.pairwise_descending values⟩
  · exact List.forall_mem_cons.mpr ⟨hlm, fun x hx => hl x (hmem x hx)⟩

/-- What every weighted list is to one of its values, every partial sum is to 0 or to 1. -/
theorem take_of_forall {R : ℝ → ℝ → Prop}
    (h : ∀ values : List ℝ, values.length = ws.length →
      ∃ x ∈ values, R x (weighted ws (Scalar.descending values))) (k : ℕ) :
    R 0 (ws.take k).sum ∨ R 1 (ws.take k).sum := by
  obtain ⟨x, hx, hR⟩ := h (upTo ws.length (min k ws.length)) (length_upTo (min_le_right _ _))
  rw [weighted_descending_upTo, ← List.take_eq_take_min] at hR
  rcases mem_upTo hx with rfl | rfl
  · exact .inr hR
  · exact .inl hR

section

variable (htotal : ws.sum = 1)

include htotal

theorem exists_bounds_of_total {values : List ℝ} (hlength : values.length = ws.length) :
    ∃ l ∈ values, ∃ m ∈ values, ∀ x ∈ values, l ≤ x ∧ x ≤ m := by
  refine exists_bounds ?_
  rintro rfl
  rw [List.eq_nil_of_length_eq_zero hlength.symm] at htotal
  exact zero_ne_one htotal

/-- **Weights that add up to 1 do not leave a list of values below its least one** exactly if no
partial sum is negative. -/
theorem least_iff :
    (∀ values : List ℝ, values.length = ws.length →
      ∃ x ∈ values, x ≤ weighted ws (Scalar.descending values)) ↔
    ∀ k, 0 ≤ (ws.take k).sum := by
  constructor
  · intro h k
    rcases take_of_forall (R := (· ≤ ·)) h k with h0 | h1
    · exact h0
    · exact zero_le_one.trans h1
  · intro h values hlength
    obtain ⟨l, hl, m, hm, hbounds⟩ := exists_bounds_of_total htotal hlength
    have hle := mul_le_weighted_descending (c := 0) hlength (by simpa using h)
      (fun x hx => (hbounds x hx).1) (fun x hx => (hbounds x hx).2) (hbounds l hl).2
    rw [htotal] at hle
    exact ⟨l, hl, by linarith⟩

/-- **They do not exceed its greatest one** exactly if no partial sum is greater than 1. -/
theorem greatest_iff :
    (∀ values : List ℝ, values.length = ws.length →
      ∃ x ∈ values, weighted ws (Scalar.descending values) ≤ x) ↔
    ∀ k, (ws.take k).sum ≤ 1 := by
  constructor
  · intro h k
    rcases take_of_forall (R := (· ≥ ·)) h k with h0 | h1
    · exact le_trans h0 zero_le_one
    · exact h1
  · intro h values hlength
    obtain ⟨l, hl, m, hm, hbounds⟩ := exists_bounds_of_total htotal hlength
    -- what the weights lack of the whole weight on the greatest value
    have hsum : ∀ vs : List ℝ, (vs.map Neg.neg).sum = -vs.sum := fun vs => (List.sum_neg vs).symm
    have hpartial : ∀ k, 0 ≤ 1 + ((ws.map Neg.neg).take k).sum := by
      intro k
      rw [← List.map_take, hsum]
      linarith [h k]
    have hle := mul_le_weighted_descending (c := 1) (by simpa using hlength) hpartial
      (fun x hx => (hbounds x hx).1) (fun x hx => (hbounds x hx).2) (hbounds l hl).2
    rw [hsum, htotal, weighted_neg] at hle
    exact ⟨m, hm, by linarith⟩

end

end Graded
