/-
# Compensation

The compensatory conjunction is a blend: it takes a power of the product of the values and a power
of their mean, and the two exponents add up to 1 (`blend`).  At the ends of the range it is the
product and the mean, and in between it leaves the one for the other, as long as the product is the
smaller one (`blend_mono`).  So it stays between the two.

For degrees the product is the smaller one, as it is at most each of them (`prod_le_of_mem`).
Values of 0 need care.  They make the product 0, and with it every blend but the mean itself,
because 0 has the power 1 to the exponent 0 and the power 0 to any greater one.  In particular no
power fails.
-/
import Graded.Proofs.Ratings
import Graded.Averaging

namespace Graded

variable {values others : List ℝ} {gamma delta p m : ℝ}

/-! ## 1. Blends -/

/-- A power of `p` times a power of `m`, with exponents that add up to 1. -/
noncomputable def blend (p m gamma : ℝ) : ℝ := p ^ (1 - gamma) * m ^ gamma

theorem blend_zero (p m : ℝ) : blend p m 0 = p := by simp [blend]

theorem blend_one (p m : ℝ) : blend p m 1 = m := by simp [blend]

/-- As a blend of positive numbers leaves the first, it grows by a power of their ratio. -/
theorem blend_of_pos (hp : 0 < p) (hm : 0 ≤ m) (gamma : ℝ) :
    blend p m gamma = p * (m / p) ^ gamma := by
  rw [blend, Real.rpow_sub hp, Real.rpow_one, Real.div_rpow hm hp.le]
  ring

/-- **A blend goes up** from the smaller number to the greater. -/
theorem blend_mono (hp : 0 ≤ p) (hpm : p ≤ m) : MonotoneOn (blend p m) unitInterval := by
  intro gamma _ delta hdelta hle
  rcases hp.eq_or_lt with rfl | hpos
  · rcases (hle.trans hdelta.2).eq_or_lt with rfl | hlt
    · rw [le_antisymm hdelta.2 hle]
    · -- a blend that keeps something of zero is zero
      have hzero : blend 0 m gamma = 0 := by
        rw [blend, Real.zero_rpow (sub_pos.mpr hlt).ne', zero_mul]
      rw [hzero]
      exact mul_nonneg (Real.rpow_nonneg le_rfl _) (Real.rpow_nonneg hpm _)
  · rw [blend_of_pos hpos (hp.trans hpm), blend_of_pos hpos (hp.trans hpm)]
    exact mul_le_mul_of_nonneg_left
      (Real.rpow_le_rpow_of_exponent_le ((one_le_div hpos).mpr hpm) hle) hp

/-- A blend stays between the two numbers. -/
theorem blend_mem (hp : 0 ≤ p) (hpm : p ≤ m) (hgamma : gamma ∈ unitInterval) :
    blend p m gamma ∈ Set.Icc p m := by
  have hfirst := blend_mono hp hpm unitInterval.zero_mem hgamma hgamma.1
  have hsecond := blend_mono hp hpm hgamma unitInterval.one_mem hgamma.2
  rw [blend_zero] at hfirst
  rw [blend_one] at hsecond
  exact ⟨hfirst, hsecond⟩

/-! ## 2. Products of degrees -/

theorem prod_mem (h : AreDegrees values) : values.prod ∈ unitInterval :=
  unitInterval.submonoid.list_prod_mem h

theorem prod_le_of_mem (h : AreDegrees values) {v : ℝ} (hv : v ∈ values) : values.prod ≤ v := by
  have hrest : AreDegrees (values.erase v) := fun x hx => h x (List.mem_of_mem_erase hx)
  rw [← List.prod_erase hv]
  exact mul_le_of_le_one_right (h v hv).1 (prod_mem hrest).2

/-- **The product of degrees is at most their mean.** -/
theorem prod_le_mean (hne : values ≠ []) (h : AreDegrees values) :
    values.prod ≤ values.sum / values.length := by
  have hlength : (0 : ℝ) < values.length := Nat.cast_pos.mpr (List.length_pos_iff.mpr hne)
  have hsum := List.card_nsmul_le_sum values values.prod fun v hv => prod_le_of_mem h hv
  rw [nsmul_eq_mul] at hsum
  rw [le_div_iff₀ hlength, mul_comm]
  exact hsum

/-! ## 3. The compensatory conjunction -/

/-- A number that is not negative has every power that is not negative. -/
theorem Scalar.realPower?_of_nonneg {base e : ℝ} (hbase : 0 ≤ base) (he : 0 ≤ e) :
    realPower? base e = .ok (some (base ^ e)) := by
  have hpower : power base e = base ^ e := rfl
  have hinfinite : ∀ x : ℝ, isInfinite x = false := fun _ => rfl
  simp [realPower?, hpower, hinfinite, hbase.not_gt, he.not_gt]

theorem compensatoryAnd_eq (hne : values ≠ []) (h : AreDegrees values)
    (hgamma : gamma ∈ unitInterval) :
    compensatoryAnd values gamma =
      .ok (blend values.prod (values.sum / values.length) gamma) := by
  have hproduct := prod_mem h
  have hmean := hproduct.1.trans (prod_le_mean hne h)
  have hfold : values.foldl (· * ·) 1 = values.prod := List.prod_eq_foldl.symm
  have hfirst := Scalar.realPower?_of_nonneg hproduct.1 (sub_nonneg.mpr hgamma.2)
  have hsecond := Scalar.realPower?_of_nonneg hmean hgamma.1
  rw [compensatoryAnd, if_neg (by simpa using hne), hfold, Scalar.mean_eq]
  simp only [hfirst, hsecond, bind, Except.bind]
  rfl

theorem compensatoryAnd_perm (h : values.Perm others) (gamma : ℝ) :
    compensatoryAnd others gamma = compensatoryAnd values gamma := by
  have hfold : ∀ xs : List ℝ, xs.foldl (· * ·) 1 = xs.prod := fun _ => List.prod_eq_foldl.symm
  simp only [compensatoryAnd, hfold, Scalar.mean_eq, h.isEmpty_eq, h.prod_eq, h.sum_eq,
    h.length_eq]

/-- **The compensatory conjunction of degrees** exists, and leaves their product for their mean as
its exponent grows.  It does not depend on their order. -/
theorem compensatoryAnd_lawful (hne : values ≠ []) (h : AreDegrees values) :
    (∃ f : ℝ → ℝ, (∀ gamma ∈ unitInterval, compensatoryAnd values gamma = .ok (f gamma)) ∧
      (∀ gamma ∈ unitInterval, values.prod ≤ f gamma ∧ f gamma ≤ values.sum / values.length) ∧
      f 0 = values.prod ∧ f 1 = values.sum / values.length ∧ MonotoneOn f unitInterval) ∧
    ∀ others, values.Perm others → ∀ gamma,
      compensatoryAnd others gamma = compensatoryAnd values gamma := by
  have hproduct := (prod_mem h).1
  have hmean := prod_le_mean hne h
  refine ⟨⟨blend values.prod (values.sum / values.length), ?_, ?_, blend_zero _ _, blend_one _ _,
    blend_mono hproduct hmean⟩, ?_⟩
  · intro gamma hgamma
    exact compensatoryAnd_eq hne h hgamma
  · intro gamma hgamma
    exact blend_mem hproduct hmean hgamma
  · intro others hperm gamma
    exact compensatoryAnd_perm hperm gamma

/-- A value that is 0 and one that is not, half-way between product and mean, and at the ends. -/
theorem compensatoryAnd_lawful_zero :
    ([0, 0.6] : List ℝ) ≠ [] ∧ AreDegrees [0, 0.6] ∧
      compensatoryAnd [(0 : ℝ), 0.6] 0 = .ok 0 ∧ compensatoryAnd [(0 : ℝ), 0.6] 1 = .ok 0.3 ∧
      compensatoryAnd [(0.6 : ℝ), 0] 0.5 = compensatoryAnd [0, 0.6] 0.5 ∧
      ∃ y, compensatoryAnd [(0 : ℝ), 0.6] 0.5 = .ok y ∧ 0 ≤ y ∧ y ≤ 0.3 := by
  have hne : ([0, 0.6] : List ℝ) ≠ [] := List.cons_ne_nil _ _
  have hdegrees : AreDegrees [0, 0.6] := by
    simp only [AreDegrees, List.forall_mem_cons]
    exact ⟨by norm_num, by norm_num, by simp⟩
  have hprod : ([0, 0.6] : List ℝ).prod = 0 := by norm_num
  have hmean : ([0, 0.6] : List ℝ).sum / ([0, 0.6] : List ℝ).length = 0.3 := by norm_num
  obtain ⟨⟨f, hf, hbetween, hzero, hone, -⟩, hperm⟩ := compensatoryAnd_lawful hne hdegrees
  rw [hprod, hmean] at hbetween
  rw [hprod] at hzero
  rw [hmean] at hone
  have hhalf : (0.5 : ℝ) ∈ unitInterval := by norm_num
  refine ⟨hne, hdegrees, ?_, ?_, hperm _ (List.Perm.swap _ _ _) _, f 0.5, hf _ hhalf,
    hbetween _ hhalf⟩
  · rw [hf 0 unitInterval.zero_mem, hzero]
  · rw [hf 1 unitInterval.one_mem, hone]

end Graded
