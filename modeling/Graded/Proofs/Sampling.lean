/-
# Sampling a domain

In exact arithmetic the points at which a variable is sampled are the ends of equal steps: the last
point, which is set to the far end and not added up, is where the steps lead (`grid_eq`).  They
increase strictly from the lower to the upper bound of the domain.
-/
import Graded.Proofs.Exact
import Graded.Variable

namespace Graded

namespace Scalar

variable {low high : ℝ} {n : ℕ}

/-! ## 1. The points of a grid -/

/-- **The ends of equal steps**, by one formula. -/
theorem grid_eq (h : low < high) (hn : 0 < n) :
    grid low high n = (List.range (n + 1)).map fun i : ℕ => (i : ℝ) * ((high - low) / n) + low := by
  obtain ⟨k, rfl⟩ := Nat.exists_eq_add_of_lt hn
  have hk : ((0 + k + 1 : ℕ) : ℝ) ≠ 0 := Nat.cast_ne_zero.mpr (by omega)
  have hstep : (high - low) / ((0 + k + 1 : ℕ) : ℝ) ≠ 0 :=
    div_ne_zero (sub_ne_zero.mpr h.ne') hk
  have hlast : ((0 + k + 1 : ℕ) : ℝ) * ((high - low) / ((0 + k + 1 : ℕ) : ℝ)) + low = high := by
    rw [mul_div_cancel₀ _ hk, sub_add_cancel]
  rw [List.range_succ, List.map_append, List.map_singleton, hlast]
  simp only [grid, beq_iff_eq, if_neg hstep]

/-- Over the unit interval they are fractions. -/
theorem grid_unit (hn : 0 < n) :
    grid (0 : ℝ) 1 n = (List.range (n + 1)).map fun i : ℕ => (i : ℝ) / n := by
  rw [grid_eq zero_lt_one hn]
  refine List.map_congr_left fun i _ => ?_
  rw [sub_zero, add_zero, mul_one_div]

/-- The points increase strictly. -/
theorem grid_pairwise (h : low < high) (hn : 0 < n) : (grid low high n).Pairwise (· < ·) := by
  have hstep : 0 < (high - low) / (n : ℝ) := div_pos (sub_pos.mpr h) (Nat.cast_pos.mpr hn)
  rw [grid_eq h hn, List.pairwise_map]
  refine List.pairwise_lt_range.imp ?_
  intro i j hij
  have : (i : ℝ) * ((high - low) / n) < (j : ℝ) * ((high - low) / n) :=
    mul_lt_mul_of_pos_right (Nat.cast_lt.mpr hij) hstep
  linarith

theorem head?_grid (h : low < high) (hn : 0 < n) : (grid low high n).head? = some low := by
  rw [grid_eq h hn, List.range_succ_eq_map]
  simp

theorem getLast?_grid (hn : 0 < n) : (grid low high n).getLast? = some high := by
  obtain ⟨k, rfl⟩ := Nat.exists_eq_add_of_lt hn
  simp [grid]

theorem grid_ne_nil (low high : ℝ) (n : ℕ) : grid low high n ≠ [] := by
  rw [← List.length_pos_iff_ne_nil, length_grid]
  omega

/-- No point lies outside the domain. -/
theorem mem_grid {x : ℝ} (h : low < high) (hn : 0 < n) (hx : x ∈ grid low high n) :
    x ∈ Set.Icc low high := by
  rw [grid_eq h hn] at hx
  obtain ⟨i, hi, rfl⟩ := List.mem_map.mp hx
  have hstep : 0 < (high - low) / (n : ℝ) := div_pos (sub_pos.mpr h) (Nat.cast_pos.mpr hn)
  have hin : (i : ℝ) ≤ n := Nat.cast_le.mpr (Nat.lt_succ_iff.mp (List.mem_range.mp hi))
  have hfar : (i : ℝ) * ((high - low) / n) ≤ high - low := by
    calc (i : ℝ) * ((high - low) / n) ≤ n * ((high - low) / n) :=
          mul_le_mul_of_nonneg_right hin hstep.le
      _ = high - low := mul_div_cancel₀ _ (Nat.cast_ne_zero.mpr hn.ne')
  constructor
  · linarith [mul_nonneg (Nat.cast_nonneg (α := ℝ) i) hstep.le]
  · linarith

end Scalar

/-! ## 2. Memberships at a point -/

/-- No shape is beyond exact arithmetic. -/
theorem Shape.tooWide_eq_false (f : Shape ℝ) : f.tooWide = false := by
  cases f <;> rfl

theorem FuzzySet.sample?_eq (f : FuzzySet ℝ) (xs : List ℝ) : f.sample? xs = .ok (f.sample xs) := by
  simp [FuzzySet.sample?, Shape.tooWide_eq_false]

namespace Variable

theorem tooWide_eq_false (v : Variable ℝ) : v.tooWide = false := by
  simp [tooWide, Shape.tooWide_eq_false]

/-- The degree of a point in the set of a name; 0 if the variable has no such set. -/
noncomputable def degreeAt (v : Variable ℝ) (name : String) (x : ℝ) : ℝ :=
  match v.set? name with
  | some f => f.shape.degree x
  | none => 0

theorem degreeAt_mem (v : Variable ℝ) (name : String) (x : ℝ) :
    v.degreeAt name x ∈ unitInterval := by
  unfold degreeAt
  split
  · exact Scalar.clamp_mem _
  · exact unitInterval.zero_mem

/-- Sampling the set of a name gives its degrees at the points. -/
theorem sample_eq {v : Variable ℝ} {name : String} {f : FuzzySet ℝ} (h : v.set? name = some f)
    (xs : List ℝ) : f.sample xs = xs.map (v.degreeAt name) := by
  refine List.map_congr_left fun x _ => ?_
  simp [degreeAt, h]

/-- Fuzzifying a value gives the same degrees, set by set. -/
theorem degreeOf_fuzzify (v : Variable ℝ) (name : String) (x : ℝ) :
    Grading.degreeOf (v.fuzzify x) name = v.degreeAt name x := by
  unfold Grading.degreeOf fuzzify degreeAt set?
  induction v.sets with
  | nil => rfl
  | cons f fs ih =>
    rw [List.map_cons, List.lookup_cons, List.find?_cons, BEq.comm]
    by_cases hf : f.name == name
    · simp only [hf]
      rfl
    · simp only [hf]
      exact ih

end Variable
end Graded
