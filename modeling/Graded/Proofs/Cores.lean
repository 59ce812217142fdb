/-
# Cores and supports

The piecewise linear shapes are written down one by one, but they coincide where they should.  A
plateau is a trapezium, and both are the lower of two shoulders (`degree_plateau`); a triangle is a
trapezium whose core is one point (`degree_triangular_eq_trapezoidal`); two shoulders over the same
slope are complements (`degree_leftShoulder_add`).  Slopes of width 0 are no exception
(`degree_coincide`).

So what a shape looks like is said of shoulders, and of the lower of two.  It is 1 on its core and
nowhere else, positive on its support and nowhere else, and it rises up to the core and falls after
it (`Outline`, `outline_lower`).  This is so for every definition that is accepted, and what was
computed on the way is known, accepted or not (`outlined_lawful`).
-/
import Graded.Proofs.Drawing
import Graded.Proofs.Trends

namespace Graded.Shape

variable {a b c d x : ℝ} {s : Shape ℝ} {core support : Set ℝ}

/-! ## 1. Shapes that coincide -/

theorem degree_plateau (hbc : b ≤ c) (x : ℝ) : (plateau a b c d).degree x =
    min ((rightShoulder a b).degree x) ((leftShoulder c d).degree x) := by
  have hclamp : ∀ y : ℝ, Scalar.clamp (Scalar.clamp y) = Scalar.clamp y :=
    fun y => Scalar.clamp_eq_self_iff.mpr (Scalar.clamp_mem y)
  change Scalar.clamp (plateauRaw a b c d x) =
    min (Scalar.clamp (rightShoulderRaw a b x)) (Scalar.clamp (leftShoulderRaw c d x))
  have hup : b ≤ x → Scalar.clamp (rightShoulderRaw a b x) = 1 := by
    intro h
    rw [rightShoulderRaw, if_pos h, Scalar.clamp_of_one_le le_rfl]
  have hdown : x ≤ c → Scalar.clamp (leftShoulderRaw c d x) = 1 := by
    intro h
    rw [leftShoulderRaw, if_pos h, Scalar.clamp_of_one_le le_rfl]
  unfold plateauRaw
  split_ifs with hxb hxc
  · rw [hclamp, hdown (hxb.trans hbc), min_eq_left (Scalar.clamp_mem _).2]
  · rw [hup (not_le.mp hxb).le, hdown hxc, min_self, Scalar.clamp_of_one_le le_rfl]
  · rw [hclamp, hup (not_le.mp hxb).le, min_eq_right (Scalar.clamp_mem _).2]

/-- A triangle is a trapezium whose core is one point. -/
theorem degree_triangular_eq_trapezoidal (a b c x : ℝ) :
    (triangular a b c).degree x = (trapezoidal a b b c).degree x := by
  change Scalar.clamp (triangularRaw a b c x) = Scalar.clamp (trapezoidalRaw a b b c x)
  unfold triangularRaw trapezoidalRaw between
  rcases lt_trichotomy x b with h | rfl | h
  · simp [h, h.not_gt, h.not_ge, h.ne]
  · simp
  · simp [h, h.not_gt, h.not_ge, h.ne']

/-- Shoulders over the same slope are complements. -/
theorem degree_leftShoulder_add (h : a < b) (x : ℝ) :
    (leftShoulder a b).degree x + (rightShoulder a b).degree x = 1 := by
  rw [degree_leftShoulder h, degree_rightShoulder h, fall_eq h, Scalar.clamp_one_sub,
    sub_add_cancel]

/-- **Shapes that are written down apart coincide**, with slopes of any width and of none. -/
theorem degree_coincide :
    (∀ a b c d x : ℝ, b ≤ c →
      (plateau a b c d).degree x = (trapezoidal a b c d).degree x ∧
      (trapezoidal a b c d).degree x =
        min ((rightShoulder a b).degree x) ((leftShoulder c d).degree x)) ∧
    (∀ a b c x : ℝ, (triangular a b c).degree x = (trapezoidal a b b c).degree x) ∧
    ∀ a b x : ℝ, a < b → (leftShoulder a b).degree x + (rightShoulder a b).degree x = 1 := by
  refine ⟨fun a b c d x hbc => ⟨?_, degree_trapezoidal hbc x⟩, degree_triangular_eq_trapezoidal,
    fun a b x h => degree_leftShoulder_add h x⟩
  rw [degree_plateau hbc, degree_trapezoidal hbc]

/-- Vertical edges: a plateau that stands at 0, a triangle that ends at its peak, two shoulders. -/
theorem degree_coincide_vertical :
    (0 : ℝ) ≤ 0.5 ∧ (plateau 0 0 0.5 1).degree (0 : ℝ) = (trapezoidal 0 0 0.5 1).degree 0 ∧
      (trapezoidal 0 0 0.5 0.5).degree (0.5 : ℝ) =
        min ((rightShoulder 0 0).degree 0.5) ((leftShoulder 0.5 0.5).degree 0.5) ∧
      (triangular 0 0.5 0.5).degree (0.5 : ℝ) = (trapezoidal 0 0.5 0.5 0.5).degree 0.5 ∧
      (0 : ℝ) < 1 ∧
      (leftShoulder 0 1).degree (0.25 : ℝ) + (rightShoulder 0 1).degree 0.25 = 1 := by
  obtain ⟨hlower, htriangle, hshoulders⟩ := degree_coincide
  have hcore : (0 : ℝ) ≤ 0.5 := by norm_num
  exact ⟨hcore, (hlower 0 0 0.5 1 0 hcore).1, (hlower 0 0 0.5 0.5 0.5 hcore).2, htriangle _ _ _ _,
    zero_lt_one, hshoulders 0 1 0.25 zero_lt_one⟩

/-! ## 2. Outlines -/

/-- A function is 1 on the core and positive on the support, and nowhere else.  It rises up to the
core and falls after it. -/
structure Outline (f : ℝ → ℝ) (core support : Set ℝ) : Prop where
  full_iff : ∀ x, f x = 1 ↔ x ∈ core
  pos_iff : ∀ x, 0 < f x ↔ x ∈ support
  rises : MonotoneOn f {x | ∃ z ∈ core, x ≤ z}
  falls : AntitoneOn f {x | ∃ z ∈ core, z ≤ x}

/-- The core and the support of a piecewise linear shape. -/
def outline? : Shape ℝ → Option (Set ℝ × Set ℝ)
  | triangular a b c => some ({b}, Set.Ioo a c)
  | trapezoidal a b c d => some (Set.Icc b c, Set.Ioo a d)
  | leftShoulder a b => some (Set.Iic a, Set.Iio b)
  | rightShoulder a b => some (Set.Ici b, Set.Ioi a)
  | plateau a b c d => some (Set.Icc b c, Set.Ioo a d)
  | gaussian .. | bell .. | sigmoid .. => none

theorem degree_le_one (s : Shape ℝ) (x : ℝ) : s.degree x ≤ 1 := (Scalar.clamp_mem _).2

theorem degree_leftShoulder_eq_one_iff (h : a < b) : (leftShoulder a b).degree x = 1 ↔ x ≤ a := by
  rw [← (degree_le_one _ x).ge_iff_eq, le_degree_leftShoulder_iff h one_pos le_rfl, one_mul,
    sub_sub_cancel]

theorem degree_rightShoulder_eq_one_iff (h : a < b) :
    (rightShoulder a b).degree x = 1 ↔ b ≤ x := by
  rw [← (degree_le_one _ x).ge_iff_eq, le_degree_rightShoulder_iff h one_pos le_rfl, one_mul,
    add_sub_cancel]

theorem outline_leftShoulder (h : a < b) :
    Outline (leftShoulder a b).degree (Set.Iic a) (Set.Iio b) where
  full_iff _ := degree_leftShoulder_eq_one_iff h
  pos_iff _ := degree_leftShoulder_pos_iff h
  rises := by
    rintro x - y ⟨z, hz, hyz⟩ hxy
    have hy : y ≤ a := hyz.trans hz
    rw [(degree_leftShoulder_eq_one_iff h).mpr hy]
    exact degree_le_one _ x
  falls := (degree_leftShoulder_anti h).antitoneOn _

theorem outline_rightShoulder (h : a < b) :
    Outline (rightShoulder a b).degree (Set.Ici b) (Set.Ioi a) where
  full_iff _ := degree_rightShoulder_eq_one_iff h
  pos_iff _ := degree_rightShoulder_pos_iff h
  rises := (degree_rightShoulder_mono h).monotoneOn _
  falls := by
    rintro x ⟨z, hz, hzx⟩ y - hxy
    have hx : b ≤ x := le_trans hz hzx
    rw [(degree_rightShoulder_eq_one_iff h).mpr hx]
    exact degree_le_one _ y

/-- **The lower of a rising and a falling shoulder** has what they have in common. -/
theorem outline_lower (hab : a < b) (hcd : c < d) :
    Outline (fun x => min ((rightShoulder a b).degree x) ((leftShoulder c d).degree x))
      (Set.Icc b c) (Set.Ioo a d) where
  full_iff x := by
    have hle : min ((rightShoulder a b).degree x) ((leftShoulder c d).degree x) ≤ 1 :=
      (min_le_left _ _).trans (degree_le_one _ x)
    rw [← hle.ge_iff_eq, le_min_iff, (degree_le_one _ x).ge_iff_eq,
      (degree_le_one _ x).ge_iff_eq, degree_rightShoulder_eq_one_iff hab,
      degree_leftShoulder_eq_one_iff hcd, Set.mem_Icc]
  pos_iff x := by
    rw [lt_min_iff, degree_rightShoulder_pos_iff hab, degree_leftShoulder_pos_iff hcd, Set.mem_Ioo]
  rises := by
    rintro x - y ⟨z, hz, hyz⟩ hxy
    refine min_le_min (degree_rightShoulder_mono hab hxy) ?_
    exact (outline_leftShoulder hcd).rises ⟨z, hz.2, hxy.trans hyz⟩ ⟨z, hz.2, hyz⟩ hxy
  falls := by
    rintro x ⟨z, hz, hzx⟩ y - hxy
    refine min_le_min ?_ (degree_leftShoulder_anti hcd hxy)
    exact (outline_rightShoulder hab).falls ⟨z, hz.1, hzx⟩ ⟨z, hz.1, hzx.trans hxy⟩ hxy

/-- **An accepted shape has its outline.** -/
theorem outline_of_check (h : s.outline? = some (core, support)) (hs : s.check = .ok ()) :
    Outline s.degree core support := by
  cases s with
  | triangular a b c =>
    cases h
    obtain ⟨hab, hbc⟩ := check_triangular.mp hs
    have hlower := outline_lower hab hbc
    rw [Set.Icc_self] at hlower
    convert hlower using 2
    rw [degree_triangular hab hbc]
  | trapezoidal a b c d =>
    cases h
    obtain ⟨hab, hbc, hcd⟩ := check_trapezoidal.mp hs
    exact (funext (degree_trapezoidal hbc)) ▸ outline_lower hab hcd
  | leftShoulder a b =>
    cases h
    exact outline_leftShoulder (check_leftShoulder.mp hs)
  | rightShoulder a b =>
    cases h
    exact outline_rightShoulder (check_rightShoulder.mp hs)
  | plateau a b c d =>
    cases h
    obtain ⟨hab, hbc, hcd⟩ := check_plateau.mp hs
    exact (funext (degree_plateau hbc)) ▸ outline_lower hab hcd
  | gaussian | bell | sigmoid => cases h

theorem exists_drawing (h : s.outline? = some (core, support)) (x : ℝ) :
    ∃ d, s.drawing? x = some d := by
  cases s with
  | triangular | trapezoidal | leftShoulder | rightShoulder | plateau => exact ⟨_, rfl⟩
  | gaussian | bell | sigmoid => cases h

/-- **Piecewise linear shapes are drawn without harm**, whatever their parameters are: each division
is by a positive number, and the value that comes out is a degree before anything is cut off.  If
the definition is accepted, the shape has its outline. -/
theorem outlined_lawful (h : s.outline? = some (core, support)) :
    (∀ x, ∃ d, s.drawing? x = some d ∧ d.drawn = s.raw x ∧ (∀ y ∈ d.divisors, 0 < y) ∧
      s.raw x ∈ unitInterval) ∧
    ∀ kind params, define kind params = .ok s → Outline s.degree core support := by
  constructor
  · intro x
    obtain ⟨d, hd⟩ := exists_drawing h x
    exact ⟨d, hd, drawn_eq_raw hd, divisors_pos hd, raw_mem hd⟩
  · intro kind params hs
    exact outline_of_check h (define_spec hs).2

/-- A plateau that is accepted, and a trapezium whose core is the wrong way round. -/
theorem outlined_lawful_plateau :
    (plateau 0.1 0.3 0.6 0.8).outline? = some (Set.Icc (0.3 : ℝ) 0.6, Set.Ioo 0.1 0.8) ∧
      define "pi_shaped" [.real (0.1 : ℝ), .real 0.3, .real 0.6, .real 0.8] =
        .ok (plateau 0.1 0.3 0.6 0.8) ∧
      Outline (plateau 0.1 0.3 0.6 0.8).degree (Set.Icc 0.3 0.6) (Set.Ioo 0.1 0.8) ∧
      (trapezoidal 0 0.9 0.1 1).raw (0.5 : ℝ) ∈ unitInterval := by
  have hcheck : (plateau 0.1 0.3 0.6 (0.8 : ℝ)).check = .ok () :=
    check_plateau.mpr ⟨by norm_num, by norm_num, by norm_num⟩
  have hdefine : define "pi_shaped" [.real (0.1 : ℝ), .real 0.3, .real 0.6, .real 0.8] =
      .ok (plateau 0.1 0.3 0.6 0.8) := define_params hcheck
  obtain ⟨-, hplateau⟩ := outlined_lawful (s := plateau 0.1 0.3 0.6 (0.8 : ℝ)) rfl
  obtain ⟨hreversed, -⟩ := outlined_lawful (s := trapezoidal 0 0.9 0.1 (1 : ℝ)) rfl
  obtain ⟨_, -, -, -, hmem⟩ := hreversed 0.5
  exact ⟨rfl, hdefine, hplateau _ _ hdefine, hmem⟩

end Graded.Shape
