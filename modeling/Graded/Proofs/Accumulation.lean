/-
# What implications and accumulations do to a profile

A rule that fires implies a degree at each point, and the implied degrees are accumulated.  Nothing
bounds a weight from above, so neither the implied degrees nor what has been accumulated stay in
the unit interval; the profile is cut off only after the last rule.  The lemmas below therefore
speak of all real numbers wherever they can.

* Every accumulation is commutative in its steps (`Accumulation.value_right_comm`): for the
  probabilistic sum everywhere, for the bounded sum as long as the steps are not negative.
* An implied degree is not negative (`Implication.value_nonneg`), save under the implication of
  Lukasiewicz at a strength above 1.
* A step never takes away from what is seen of the profile (`Accumulation.clamp_le_clamp_value`)
  if it is not negative and, for the probabilistic sum, not above 1.  Under such steps the profile
  is positive as soon as one of them is (`Accumulation.value_pos_iff`).
-/
import Graded.Proofs.Exact
import Graded.Implication

namespace Graded

/-! ## 1. Implied degrees -/

namespace Implication

variable {i : Implication} {strength mu : ℝ}

theorem value_mamdani (a b : ℝ) : mamdani.value a b = min a b := Scalar.lesser_eq_min a b

theorem value_larsen (a b : ℝ) : larsen.value a b = a * b := rfl

theorem value_kleeneDienes (a b : ℝ) : kleeneDienes.value a b = max (1 - a) b :=
  Scalar.larger_eq_max (1 - a) b

theorem value_lukasiewicz (a b : ℝ) : lukasiewicz.value a b = min 1 (1 - a + b) :=
  Scalar.lesser_eq_min 1 (1 - a + b)

/-- An implied degree is negative only under the implication of Lukasiewicz, and only if the rule
fires with more than 1. -/
theorem value_nonneg (hs : 0 ≤ strength) (hmu : mu ∈ unitInterval)
    (hi : i = lukasiewicz → strength ≤ 1) : 0 ≤ i.value strength mu := by
  cases i with
  | mamdani => exact value_mamdani _ _ ▸ le_min hs hmu.1
  | larsen => exact mul_nonneg hs hmu.1
  | kleeneDienes => exact value_kleeneDienes _ _ ▸ le_max_of_le_right hmu.1
  | lukasiewicz =>
    have h1 : strength ≤ 1 := hi rfl
    exact value_lukasiewicz _ _ ▸ le_min zero_le_one (by linarith [hmu.1])

/-- An implied degree is above 1 only under the implication of Larsen, and only if the rule fires
with more than 1. -/
theorem value_le_one (hs : 0 ≤ strength) (hmu : mu ∈ unitInterval)
    (hi : i = larsen → strength ≤ 1) : i.value strength mu ≤ 1 := by
  cases i with
  | mamdani => exact value_mamdani _ _ ▸ (min_le_right _ _).trans hmu.2
  | larsen => exact mul_le_one₀ (hi rfl) hmu.1 hmu.2
  | kleeneDienes => exact value_kleeneDienes _ _ ▸ max_le (by linarith) hmu.2
  | lukasiewicz => exact value_lukasiewicz _ _ ▸ min_le_left _ _

end Implication

/-! ## 2. Accumulating -/

namespace Accumulation

variable {a : Accumulation} {x y : ℝ}

theorem value_maximum (z x : ℝ) : maximum.value z x = max z x := Scalar.larger_eq_max z x

theorem value_boundedSum (z x : ℝ) : boundedSum.value z x = min 1 (z + x) :=
  Scalar.lesser_eq_min 1 (z + x)

theorem value_probabilisticSum (z x : ℝ) : probabilisticSum.value z x = z + x - z * x := rfl

/-- **Two steps commute.**  A bounded sum forgets what exceeds 1, which a negative step would
miss. -/
theorem value_right_comm (a : Accumulation) (z : ℝ) (hx : 0 ≤ x) (hy : 0 ≤ y) :
    a.value (a.value z x) y = a.value (a.value z y) x := by
  cases a with
  | maximum => simp only [value_maximum, max_right_comm]
  | boundedSum =>
    have step : ∀ u v : ℝ, 0 ≤ v → min 1 (min 1 u + v) = min 1 (u + v) := by
      intro u v hv
      rcases min_cases 1 u with ⟨h, h'⟩ | ⟨h, h'⟩
      · rw [h, min_eq_left (by linarith), min_eq_left (by linarith)]
      · rw [h]
    simp only [value_boundedSum]
    rw [step _ _ hy, step _ _ hx, add_right_comm]
  | probabilisticSum =>
    simp only [value_probabilisticSum]
    ring

/-- The same step twice is one step, for the maximum. -/
theorem maximum_value_self (z x : ℝ) : maximum.value (maximum.value z x) x = maximum.value z x := by
  rw [value_maximum, value_maximum, max_assoc, max_self]

/-- The steps that cannot take anything away: any step for the maximum, one that is not negative
for the bounded sum, and a degree for the probabilistic sum. -/
def Adds : Accumulation → ℝ → Prop
  | maximum, _ => True
  | boundedSum, x => 0 ≤ x
  | probabilisticSum, x => x ∈ unitInterval

/-- **What is seen of a profile does not shrink**, whatever has been accumulated before. -/
theorem clamp_le_clamp_value (z : ℝ) (h : a.Adds x) :
    Scalar.clamp z ≤ Scalar.clamp (a.value z x) := by
  cases a with
  | maximum => exact Scalar.clamp_mono (value_maximum z x ▸ le_max_left z x)
  | boundedSum =>
    have h0 : 0 ≤ x := h
    rcases le_total 1 (z + x) with h1 | h1
    · rw [value_boundedSum, min_eq_left h1, Scalar.clamp_of_one_le le_rfl]
      exact (Scalar.clamp_mem z).2
    · rw [value_boundedSum, min_eq_right h1]
      exact Scalar.clamp_mono (by linarith)
  | probabilisticSum =>
    obtain ⟨h0, h1⟩ := h
    rw [value_probabilisticSum]
    rcases le_total z 1 with hz | hz
    · exact Scalar.clamp_mono (by nlinarith [mul_nonneg h0 (sub_nonneg.mpr hz)])
    · -- above 1 the sum stays above 1, though it may come down
      have hp : 0 ≤ (z - 1) * (1 - x) := mul_nonneg (sub_nonneg.mpr hz) (sub_nonneg.mpr h1)
      rw [Scalar.clamp_of_one_le (x := z + x - z * x) (by linarith)]
      exact (Scalar.clamp_mem z).2

/-- What has been accumulated stays at most 1 if the step is at most 1. -/
theorem value_le_one {z : ℝ} (hz : z ≤ 1) (hx : x ≤ 1) : a.value z x ≤ 1 := by
  cases a with
  | maximum => exact value_maximum z x ▸ max_le hz hx
  | boundedSum => exact value_boundedSum z x ▸ min_le_left _ _
  | probabilisticSum =>
    have h : 0 ≤ (1 - z) * (1 - x) := mul_nonneg (sub_nonneg.mpr hz) (sub_nonneg.mpr hx)
    rw [value_probabilisticSum]
    linarith

/-- What is seen does not shrink either if at most 1 has been accumulated and the step is not
negative. -/
theorem clamp_le_clamp_value_of_le_one {z : ℝ} (hz : z ≤ 1) (hx : 0 ≤ x) :
    Scalar.clamp z ≤ Scalar.clamp (a.value z x) := by
  refine Scalar.clamp_mono ?_
  cases a with
  | maximum => exact value_maximum z x ▸ le_max_left z x
  | boundedSum => exact value_boundedSum z x ▸ le_min hz (by linarith)
  | probabilisticSum =>
    have h : 0 ≤ x * (1 - z) := mul_nonneg hx (sub_nonneg.mpr hz)
    rw [value_probabilisticSum]
    linarith

/-- What has been accumulated stays at least 0 if nothing is taken away. -/
theorem value_nonneg {z : ℝ} (hz : 0 ≤ z) (h : a.Adds x) : 0 ≤ a.value z x := by
  cases a with
  | maximum => exact value_maximum z x ▸ le_max_of_le_left hz
  | boundedSum => exact value_boundedSum z x ▸ le_min zero_le_one (add_nonneg hz h)
  | probabilisticSum =>
    have hp : 0 ≤ z * (1 - x) := mul_nonneg hz (sub_nonneg.mpr h.2)
    rw [value_probabilisticSum]
    linarith [h.1]

/-- **An accumulation is positive exactly if one of its operands is**, if the second one cannot
take anything away. -/
theorem value_pos_iff {z : ℝ} (hz : 0 ≤ z) (h : a.Adds x) : 0 < a.value z x ↔ 0 < z ∨ 0 < x := by
  cases a with
  | maximum => rw [value_maximum, lt_max_iff]
  | boundedSum =>
    have hx : 0 ≤ x := h
    rw [value_boundedSum, lt_min_iff, and_iff_right one_pos]
    constructor
    · intro hpos
      by_contra hn
      obtain ⟨hz', hx'⟩ := not_or.mp hn
      linarith [not_lt.mp hz', not_lt.mp hx']
    · rintro (h | h)
      · linarith
      · linarith
  | probabilisticSum =>
    obtain ⟨h0, h1⟩ := h
    have hp : 0 ≤ z * (1 - x) := mul_nonneg hz (sub_nonneg.mpr h1)
    rw [value_probabilisticSum]
    constructor
    · intro hpos
      by_contra hn
      obtain ⟨hz', hx'⟩ := not_or.mp hn
      rw [le_antisymm (not_lt.mp hz') hz, le_antisymm (not_lt.mp hx') h0] at hpos
      simp at hpos
    · rintro (h | h)
      · rcases h0.eq_or_lt with rfl | hx
        · simpa using h
        · linarith
      · linarith

end Accumulation

/-! ## 3. Which pairs tolerate any weight -/

/-- The pairs of an implication and an accumulation under which an implied degree can only add,
whatever the strength. -/
def Implication.Tolerant : Implication → Accumulation → Prop
  | _, .maximum => True
  | .lukasiewicz, .boundedSum => False
  | _, .boundedSum => True
  | .mamdani, .probabilisticSum | .kleeneDienes, .probabilisticSum => True
  | .larsen, .probabilisticSum | .lukasiewicz, .probabilisticSum => False

/-- An implied degree can only add under a tolerant pair, and under any pair if the rule fires
with at most 1. -/
theorem Implication.adds_value {i : Implication} {a : Accumulation} {strength mu : ℝ}
    (hs : 0 ≤ strength) (hmu : mu ∈ unitInterval) (h : i.Tolerant a ∨ strength ≤ 1) :
    a.Adds (i.value strength mu) := by
  cases a with
  | maximum => trivial
  | boundedSum =>
    refine value_nonneg hs hmu ?_
    rintro rfl
    exact h.resolve_left id
  | probabilisticSum =>
    refine ⟨value_nonneg hs hmu ?_, value_le_one hs hmu ?_⟩
    · rintro rfl
      exact h.resolve_left id
    · rintro rfl
      exact h.resolve_left id

end Graded
