/-
# Outputs weighted by strengths

The mean of outputs weighted by strengths is one quotient, also where there is nothing to weigh,
because a division by 0 is 0 (`weightedOutput_eq`).  It therefore depends on two sums only, and on
these only up to a common factor (`weightedOutput_of_factor`).

* The mean of centres leaves out the sets of degree 0 before it weighs, and weighted outputs count
  them with weight 0.  That adds nothing to either sum, so both are the same mean
  (`weightedCentre_eq_weightedOutput`).
* The order of the outputs, a common factor of the strengths, outputs of strength 0 and the merging
  of equal outputs change neither sum, or both alike.
* Between which bounds the mean lies is decided by the outputs that have some strength
  (`weightedOutput_mem`).
-/
import Graded.Proofs.Relevance
import Graded.Proofs.Weighing

namespace Graded

variable {pairs others weightless : List (ℝ × ℝ)} {k : ℝ}

/-! ## 1. One quotient -/

/-- The weighted outputs, by one formula. -/
theorem weightedOutput_eq (pairs : List (ℝ × ℝ)) :
    weightedOutput pairs = (pairs.map fun q => q.1 * q.2).sum / (pairs.map (·.1)).sum := by
  unfold weightedOutput
  simp only [Scalar.total_eq_sum, Bool.or_eq_true, List.isEmpty_iff, beq_iff_eq]
  split_ifs with h
  · rcases h with rfl | h
    · simp
    · rw [h, div_zero]
  · exact weightedMean_eq pairs

/-- **A mean of centres is a weighted output**: of each name its degree and its centre, which is 0
if it has none. -/
theorem weightedCentre_eq_weightedOutput {memberships : Grading ℝ} (centres : Grading ℝ)
    (h : ∀ m ∈ memberships, 0 ≤ m.2) :
    weightedCentre memberships centres =
      weightedOutput (memberships.map fun m => (m.2, centres.degreeOf m.1)) := by
  rw [weightedCentre_eq centres h, weightedOutput_eq, List.map_map, List.map_map]
  rfl

/-! ## 2. What does not change the mean -/

/-- **Two sums decide the mean**, up to a common factor. -/
theorem weightedOutput_of_factor (hk : k ≠ 0)
    (hmoments : (others.map fun q => q.1 * q.2).sum = k * (pairs.map fun q => q.1 * q.2).sum)
    (hweights : (others.map (·.1)).sum = k * (pairs.map (·.1)).sum) :
    weightedOutput others = weightedOutput pairs := by
  rw [weightedOutput_eq, weightedOutput_eq, hmoments, hweights, mul_div_mul_left _ _ hk]

theorem weightedOutput_perm (h : pairs.Perm others) :
    weightedOutput others = weightedOutput pairs :=
  weightedOutput_of_factor one_ne_zero (by rw [one_mul, (h.map _).sum_eq])
    (by rw [one_mul, (h.map _).sum_eq])

theorem weightedOutput_scaled (hk : k ≠ 0) :
    weightedOutput (pairs.map fun q => (k * q.1, q.2)) = weightedOutput pairs := by
  refine weightedOutput_of_factor hk ?_ ?_
  · rw [List.map_map, ← List.sum_map_mul_left]
    exact congrArg List.sum (List.map_congr_left fun q _ => mul_assoc k q.1 q.2)
  · rw [List.map_map, ← List.sum_map_mul_left]
    rfl

/-- Outputs of strength 0 do not count. -/
theorem weightedOutput_append_weightless (h : ∀ q ∈ weightless, q.1 = 0) :
    weightedOutput (pairs ++ weightless) = weightedOutput pairs := by
  have hmoments : (weightless.map fun q => q.1 * q.2).sum = 0 :=
    List.sum_eq_zero (List.forall_mem_map.mpr fun q hq => by rw [h q hq, zero_mul])
  have hweights : (weightless.map (·.1)).sum = 0 :=
    List.sum_eq_zero (List.forall_mem_map.mpr h)
  refine weightedOutput_of_factor one_ne_zero ?_ ?_
  · rw [List.map_append, List.sum_append, hmoments, add_zero, one_mul]
  · rw [List.map_append, List.sum_append, hweights, add_zero, one_mul]

/-- Equal outputs count with their strengths added. -/
theorem weightedOutput_merged (w₁ w₂ z : ℝ) (rest : List (ℝ × ℝ)) :
    weightedOutput ((w₁ + w₂, z) :: rest) = weightedOutput ((w₁, z) :: (w₂, z) :: rest) := by
  refine weightedOutput_of_factor one_ne_zero ?_ ?_
  · simp only [List.map_cons, List.sum_cons]
    ring
  · simp only [List.map_cons, List.sum_cons]
    ring

/-! ## 3. Bounds -/

/-- **The mean lies between the least and the greatest output that has some strength.** -/
theorem weightedOutput_mem (h : ∀ q ∈ pairs, 0 ≤ q.1) (hpos : 0 < (pairs.map (·.1)).sum) :
    ∃ l ∈ pairs, ∃ m ∈ pairs, 0 < l.1 ∧ 0 < m.1 ∧
      (∀ q ∈ pairs, 0 < q.1 → l.2 ≤ q.2 ∧ q.2 ≤ m.2) ∧
      weightedOutput pairs ∈ Set.Icc l.2 m.2 := by
  set active := pairs.filter fun q => 0 < q.1 with hactive
  have hzero : ∀ q ∈ pairs, decide (0 < q.1) = false → q.1 = 0 := fun q hq hnot =>
    le_antisymm (by simpa using hnot) (h q hq)
  have hmoments : (active.map fun q => q.1 * q.2).sum = (pairs.map fun q => q.1 * q.2).sum :=
    sum_map_filter fun q hq hnot => by rw [hzero q hq hnot, zero_mul]
  have hweights : (active.map (·.1)).sum = (pairs.map (·.1)).sum := sum_map_filter hzero
  have hmem : ∀ q, q ∈ active ↔ q ∈ pairs ∧ 0 < q.1 := fun q => by simp [hactive]
  have hne : active.map (·.2) ≠ [] := by
    intro h0
    rw [← hweights, List.map_eq_nil_iff.mp h0] at hpos
    exact lt_irrefl _ hpos
  obtain ⟨_, hleast, _, hgreatest, hbounds⟩ := exists_bounds hne
  obtain ⟨l, hl, rfl⟩ := List.mem_map.mp hleast
  obtain ⟨m, hm, rfl⟩ := List.mem_map.mp hgreatest
  obtain ⟨hlmem, hlpos⟩ := (hmem l).mp hl
  obtain ⟨hmmem, hmpos⟩ := (hmem m).mp hm
  refine ⟨l, hlmem, m, hmmem, hlpos, hmpos,
    fun q hq hqpos => hbounds _ (List.mem_map_of_mem ((hmem q).mpr ⟨hq, hqpos⟩)), ?_⟩
  have houtputs : ∀ z ∈ active.map (·.2), z ∈ Set.Icc l.2 m.2 := hbounds
  have hstrengths : ∀ w ∈ active.map (·.1), 0 ≤ w :=
    List.forall_mem_map.mpr fun q hq => ((hmem q).mp hq).2.le
  have hwithin := Profile.moments_within houtputs hstrengths (by simp)
  have hswap : (active.map fun q => q.2 * q.1) = active.map fun q => q.1 * q.2 :=
    List.map_congr_left fun q _ => mul_comm q.2 q.1
  rw [List.zipWith_map, List.zipWith_self, hswap, hmoments, hweights] at hwithin
  rw [weightedOutput_eq]
  exact ⟨(le_div_iff₀ hpos).mpr hwithin.1, (div_le_iff₀ hpos).mpr hwithin.2⟩

/-! ## 4. The laws -/

/-- **Weighted centres and weighted outputs.**  The mean of centres weighted by degrees is the mean
of outputs with the degrees as strengths.  Outputs, not all of strength 0, have a mean between the
least and the greatest of those that have some strength.  It does not depend on their order, on a
common factor of the strengths or on outputs of strength 0, and equal outputs can be merged,
wherever they stand. -/
theorem weightedOutput_lawful :
    (∀ memberships centres : Grading ℝ, (∀ m ∈ memberships, 0 ≤ m.2) →
      weightedCentre memberships centres =
        weightedOutput (memberships.map fun m => (m.2, centres.degreeOf m.1))) ∧
    ∀ pairs : List (ℝ × ℝ), (∀ q ∈ pairs, 0 ≤ q.1) → 0 < (pairs.map (·.1)).sum →
      (∃ l ∈ pairs, ∃ m ∈ pairs, 0 < l.1 ∧ 0 < m.1 ∧
        (∀ q ∈ pairs, 0 < q.1 → l.2 ≤ q.2 ∧ q.2 ≤ m.2) ∧
        weightedOutput pairs ∈ Set.Icc l.2 m.2) ∧
      (∀ others, pairs.Perm others → weightedOutput others = weightedOutput pairs) ∧
      (∀ k, 0 < k →
        weightedOutput (pairs.map fun q => (k * q.1, q.2)) = weightedOutput pairs) ∧
      (∀ weightless others, (∀ q ∈ weightless, q.1 = 0) → (pairs ++ weightless).Perm others →
        weightedOutput others = weightedOutput pairs) ∧
      ∀ w₁ w₂ z rest others, pairs.Perm ((w₁, z) :: (w₂, z) :: rest) →
        ((w₁ + w₂, z) :: rest).Perm others → weightedOutput others = weightedOutput pairs := by
  refine ⟨?_, ?_⟩
  · intro memberships centres h
    exact weightedCentre_eq_weightedOutput centres h
  intro pairs h hpos
  refine ⟨weightedOutput_mem h hpos, ?_, ?_, ?_, ?_⟩
  · intro others hperm
    exact weightedOutput_perm hperm
  · intro k hk
    exact weightedOutput_scaled hk.ne'
  · intro weightless others hzero hperm
    rw [weightedOutput_perm hperm, weightedOutput_append_weightless hzero]
  · intro w₁ w₂ z rest others hperm hothers
    rw [weightedOutput_perm hothers, weightedOutput_merged, weightedOutput_perm hperm]

/-- Degrees of which one is 0 and one belongs to a set without a centre; and three outputs of which
the first and the last are equal. -/
theorem weightedOutput_lawful_apart :
    (∀ m ∈ [("high", (0.5 : ℝ)), ("odd", 0.25), ("low", 0)], 0 ≤ m.2) ∧
      weightedCentre [("high", (0.5 : ℝ)), ("odd", 0.25), ("low", 0)]
        [("high", 0.7), ("low", 0.3)] = weightedOutput [(0.5, 0.7), (0.25, 0), (0, 0.3)] ∧
      (∀ q ∈ [((0.5 : ℝ), (0.2 : ℝ)), (0.25, 0.8), (0.25, 0.2)], 0 ≤ q.1) ∧
      0 < ([((0.5 : ℝ), (0.2 : ℝ)), (0.25, 0.8), (0.25, 0.2)].map (·.1)).sum ∧
      [((0.5 : ℝ), (0.2 : ℝ)), (0.25, 0.8), (0.25, 0.2)].Perm
        [(0.5, 0.2), (0.25, 0.2), (0.25, 0.8)] ∧
      weightedOutput [((0.25 : ℝ), (0.8 : ℝ)), (0.5 + 0.25, 0.2)] =
        weightedOutput [(0.5, 0.2), (0.25, 0.8), (0.25, 0.2)] := by
  obtain ⟨hcentres, houtputs⟩ := weightedOutput_lawful
  have hdegrees : ∀ m ∈ [("high", (0.5 : ℝ)), ("odd", 0.25), ("low", 0)], 0 ≤ m.2 := by norm_num
  have hnonneg : ∀ q ∈ [((0.5 : ℝ), (0.2 : ℝ)), (0.25, 0.8), (0.25, 0.2)], 0 ≤ q.1 := by norm_num
  have hpos : 0 < ([((0.5 : ℝ), (0.2 : ℝ)), (0.25, 0.8), (0.25, 0.2)].map (·.1)).sum := by
    norm_num
  have hperm : [((0.5 : ℝ), (0.2 : ℝ)), (0.25, 0.8), (0.25, 0.2)].Perm
      [(0.5, 0.2), (0.25, 0.2), (0.25, 0.8)] := (List.Perm.swap _ _ _).cons _
  obtain ⟨-, -, -, -, hmerged⟩ := houtputs _ hnonneg hpos
  exact ⟨hdegrees, hcentres _ _ hdegrees, hnonneg, hpos, hperm,
    hmerged _ _ _ _ _ hperm (List.Perm.swap _ _ _)⟩

end Graded
