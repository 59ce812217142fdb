/-
# Slopes in exact arithmetic

The piecewise linear shapes are slopes, cut off at 0 and 1.

* A shoulder is one slope over the whole line (`degree_leftShoulder`, `degree_rightShoulder`).
* A triangle is the lower of two shoulders (`degree_triangular`), and so is a trapezium
  (`degree_trapezoidal`).
* Each of them is positive on an open interval (`degree_triangular_pos_iff`), and reaches a height on
  a closed one (`le_degree_triangular_iff`).
-/
import Graded.Proofs.Exact
import Graded.Shape

namespace Graded.Shape

variable {a b c d x y : ℝ}

/-! ## 1. Slopes -/

/-- A slope on which a value lies has a width, so that shapes may divide by it. -/
theorem width_pos (h : between a x b = true) : 0 < b - a := by
  obtain ⟨hax, hxb⟩ := between_iff.mp h
  exact sub_pos.mpr (hax.trans hxb)

/-- Two slopes between the same ends add up to 1. -/
theorem fall_eq (h : a < b) (x : ℝ) : fall a b x = 1 - rise a b x := by
  have hwidth : b - a ≠ 0 := (sub_pos.mpr h).ne'
  rw [fall, rise, eq_sub_iff_add_eq, ← add_div, sub_add_sub_cancel, div_self hwidth]

theorem one_le_rise_iff (h : a < b) : 1 ≤ rise a b x ↔ b ≤ x := by
  rw [rise, one_le_div (sub_pos.mpr h)]
  exact sub_le_sub_iff_right a

theorem one_le_fall_iff (h : a < b) : 1 ≤ fall a b x ↔ x ≤ a := by
  rw [fall, one_le_div (sub_pos.mpr h)]
  exact sub_le_sub_iff_left b

theorem rise_nonpos_iff (h : a < b) : rise a b x ≤ 0 ↔ x ≤ a := by
  rw [rise, div_le_iff₀ (sub_pos.mpr h), zero_mul, sub_nonpos]

theorem fall_nonpos_iff (h : a < b) : fall a b x ≤ 0 ↔ b ≤ x := by
  rw [fall, div_le_iff₀ (sub_pos.mpr h), zero_mul, sub_nonpos]

theorem rise_mono (h : a < b) : Monotone (rise a b) := by
  intro x y hxy
  exact div_le_div_of_nonneg_right (sub_le_sub_right hxy a) (sub_pos.mpr h).le

theorem fall_anti (h : a < b) : Antitone (fall a b) := by
  intro x y hxy
  exact div_le_div_of_nonneg_right (sub_le_sub_left hxy b) (sub_pos.mpr h).le

/-! ## 2. Shoulders -/

theorem degree_leftShoulder (h : a < b) (x : ℝ) :
    (leftShoulder a b).degree x = Scalar.clamp (fall a b x) := by
  change Scalar.clamp (leftShoulderRaw a b x) = _
  unfold leftShoulderRaw between
  by_cases hxa : x ≤ a
  · rw [if_pos hxa, Scalar.clamp_of_one_le le_rfl,
      Scalar.clamp_of_one_le ((one_le_fall_iff h).mpr hxa)]
  · by_cases hxb : x < b
    · simp [hxa, not_le.mp hxa, hxb]
    · rw [Scalar.clamp_of_nonpos ((fall_nonpos_iff h).mpr (not_lt.mp hxb))]
      simp [hxa, hxb, Scalar.clamp_of_nonpos]

theorem degree_rightShoulder (h : a < b) (x : ℝ) :
    (rightShoulder a b).degree x = Scalar.clamp (rise a b x) := by
  change Scalar.clamp (rightShoulderRaw a b x) = _
  unfold rightShoulderRaw between
  by_cases hbx : b ≤ x
  · rw [if_pos hbx, Scalar.clamp_of_one_le le_rfl,
      Scalar.clamp_of_one_le ((one_le_rise_iff h).mpr hbx)]
  · by_cases hxa : x ≤ a
    · rw [Scalar.clamp_of_nonpos ((rise_nonpos_iff h).mpr hxa)]
      simp [hbx, hxa, Scalar.clamp_of_nonpos]
    · simp [hbx, hxa, not_le.mp hxa, not_le.mp hbx]

theorem degree_leftShoulder_anti (h : a < b) : Antitone (leftShoulder a b).degree := by
  intro x y hxy
  rw [degree_leftShoulder h, degree_leftShoulder h]
  exact Scalar.clamp_mono (fall_anti h hxy)

theorem degree_rightShoulder_mono (h : a < b) : Monotone (rightShoulder a b).degree := by
  intro x y hxy
  rw [degree_rightShoulder h, degree_rightShoulder h]
  exact Scalar.clamp_mono (rise_mono h hxy)

/-! ## 3. Triangles and trapezia -/

/-- The raw triangle is the lower of its slopes, once that is cut off. -/
theorem degree_triangular_eq_clamp (hab : a < b) (hbc : b < c) (x : ℝ) :
    (triangular a b c).degree x = Scalar.clamp (min (rise a b x) (fall b c x)) := by
  change Scalar.clamp (triangularRaw a b c x) = _
  unfold triangularRaw between
  rcases lt_trichotomy x b with hxb | rfl | hbx
  · have hle : rise a b x ≤ fall b c x :=
      (not_le.mp (mt (one_le_rise_iff hab).mp hxb.not_ge)).le.trans
        ((one_le_fall_iff hbc).mpr hxb.le)
    rw [min_eq_left hle]
    by_cases hax : a < x
    · simp [hxb, hxb.not_gt, hxb.ne, hax]
    · rw [Scalar.clamp_of_nonpos ((rise_nonpos_iff hab).mpr (not_lt.mp hax))]
      simp [hxb.not_gt, hxb.ne, hax, Scalar.clamp_of_nonpos]
  · have h1 : 1 ≤ min (rise a x x) (fall x c x) :=
      le_min ((one_le_rise_iff hab).mpr le_rfl) ((one_le_fall_iff hbc).mpr le_rfl)
    rw [Scalar.clamp_of_one_le h1]
    simp [Scalar.clamp_of_one_le]
  · have hle : fall b c x ≤ rise a b x :=
      (not_le.mp (mt (one_le_fall_iff hbc).mp hbx.not_ge)).le.trans
        ((one_le_rise_iff hab).mpr hbx.le)
    rw [min_eq_right hle]
    by_cases hxc : x < c
    · simp [hbx, hxc]
    · rw [Scalar.clamp_of_nonpos ((fall_nonpos_iff hbc).mpr (not_lt.mp hxc))]
      simp [hbx.not_gt, hbx.ne', hxc, Scalar.clamp_of_nonpos]

/-- **A triangle is the lower of two shoulders.** -/
theorem degree_triangular (hab : a < b) (hbc : b < c) (x : ℝ) :
    (triangular a b c).degree x =
      min ((rightShoulder a b).degree x) ((leftShoulder b c).degree x) := by
  have hmono : Monotone (Scalar.clamp : ℝ → ℝ) := fun _ _ => Scalar.clamp_mono
  rw [degree_triangular_eq_clamp hab hbc, degree_rightShoulder hab, degree_leftShoulder hbc,
    hmono.map_min]

/-- **A trapezium is the lower of two shoulders**, also where an edge of it is vertical. -/
theorem degree_trapezoidal (hbc : b ≤ c) (x : ℝ) :
    (trapezoidal a b c d).degree x =
      min ((rightShoulder a b).degree x) ((leftShoulder c d).degree x) := by
  change Scalar.clamp (trapezoidalRaw a b c d x) =
    min (Scalar.clamp (rightShoulderRaw a b x)) (Scalar.clamp (leftShoulderRaw c d x))
  unfold trapezoidalRaw rightShoulderRaw leftShoulderRaw between
  rcases lt_or_ge x b with hxb | hbx
  · -- below the core the falling shoulder is still up
    have hxc : x < c := hxb.trans_le hbc
    rw [if_pos hxc.le, Scalar.clamp_of_one_le le_rfl, min_eq_left (Scalar.clamp_mem _).2]
    by_cases hax : a < x
    · simp [hxb, hxb.not_ge, hxc.not_gt, hax, hax.not_ge]
    · simp [hxb.not_ge, hxc.not_gt, hax, not_lt.mp hax]
  · rw [if_pos hbx, Scalar.clamp_of_one_le le_rfl, min_eq_right (Scalar.clamp_mem _).2]
    by_cases hxc : x ≤ c
    · simp [hbx, hbx.not_gt, hxc, hxc.not_gt]
    · simp [hbx.not_gt, hxc]

/-! ## 4. Where shapes are positive -/

theorem degree_leftShoulder_pos_iff (h : a < b) : 0 < (leftShoulder a b).degree x ↔ x < b := by
  rw [degree_leftShoulder h, Scalar.clamp_pos_iff, ← not_le, fall_nonpos_iff h, not_le]

theorem degree_rightShoulder_pos_iff (h : a < b) : 0 < (rightShoulder a b).degree x ↔ a < x := by
  rw [degree_rightShoulder h, Scalar.clamp_pos_iff, ← not_le, rise_nonpos_iff h, not_le]

theorem degree_triangular_pos_iff (hab : a < b) (hbc : b < c) :
    0 < (triangular a b c).degree x ↔ a < x ∧ x < c := by
  rw [degree_triangular hab hbc, lt_min_iff, degree_rightShoulder_pos_iff hab,
    degree_leftShoulder_pos_iff hbc]

/-! ## 5. Where shapes reach a height -/

theorem le_degree_leftShoulder_iff (hab : a < b) (h0 : 0 < y) (h1 : y ≤ 1) :
    y ≤ (leftShoulder a b).degree x ↔ x ≤ b - y * (b - a) := by
  rw [degree_leftShoulder hab, Scalar.le_clamp_iff h0 h1, fall, le_div_iff₀ (sub_pos.mpr hab)]
  exact le_sub_comm

theorem le_degree_rightShoulder_iff (hab : a < b) (h0 : 0 < y) (h1 : y ≤ 1) :
    y ≤ (rightShoulder a b).degree x ↔ a + y * (b - a) ≤ x := by
  rw [degree_rightShoulder hab, Scalar.le_clamp_iff h0 h1, rise, le_div_iff₀ (sub_pos.mpr hab)]
  exact le_sub_iff_add_le'

theorem le_degree_triangular_iff (hab : a < b) (hbc : b < c) (h0 : 0 < y) (h1 : y ≤ 1) :
    y ≤ (triangular a b c).degree x ↔ a + y * (b - a) ≤ x ∧ x ≤ c - y * (c - b) := by
  rw [degree_triangular hab hbc, le_min_iff, le_degree_rightShoulder_iff hab h0 h1,
    le_degree_leftShoulder_iff hbc h0 h1]

end Graded.Shape
