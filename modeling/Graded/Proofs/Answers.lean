/-
# Shapes that give no answer

A definition is checked by comparisons of its parameters, and no comparison holds for an undefined
parameter.  Where one has to hold, as between breakpoints, such a definition is refused.  Where one
must not hold, as between a spread and 0, it is accepted (`Shape.smooth_of_undefined`).  So are
infinite breakpoints, which are in order, and spreads whose square is rounded to 0.

What becomes of an accepted shape is known from the rules for special values.  At a finite value its
degree is undefined exactly if the shape is lost there (`Shape.lost`): on a slope of infinite
length, or by what its parameters are.  Everywhere else the shape has a degree, if it can be computed
at all (`Shape.answers_iff`).  So there are definitions that are accepted and give no answer
(`Doubles.not_answers`), but none of them has defined parameters and widths that are finite and not
zero (`Shape.answers_of_widths`).
-/
import Graded.Proofs.SpecialValues
import Graded.Proofs.Trends

namespace Graded

variable {α : Type} [Scalar α] {x y z : α}

/-! ## 1. Numbers -/

namespace Scalar.Special

section

variable (hα : Scalar.Special α)

include hα

theorem undefined_zero : undefined (0 : α) = false := (hα.defined_of_lt zero_lt_one).1

theorem not_le_of_lt (h : x < y) : ¬ y ≤ x := by
  obtain ⟨hx, hy⟩ := hα.defined_of_lt h
  exact (hα.ordered.lt_iff hx hy).mp h

theorem le_refl (hx : undefined x = false) : x ≤ x := (hα.ordered.total hx hx).elim id id

theorem le_of_not_lt (hx : undefined x = false) (hy : undefined y = false) (h : ¬ x < y) :
    y ≤ x := by
  by_contra hyx
  exact h ((hα.ordered.lt_iff hx hy).mpr hyx)

theorem le_of_lt (h : x < y) : x ≤ y := by
  obtain ⟨hx, hy⟩ := hα.defined_of_lt h
  exact (hα.ordered.total hx hy).resolve_right (hα.not_le_of_lt h)

theorem lt_trans (hxy : x < y) (hyz : y < z) : x < z := by
  obtain ⟨hx, -⟩ := hα.defined_of_lt hxy
  obtain ⟨hy, hz⟩ := hα.defined_of_lt hyz
  rw [hα.ordered.lt_iff hx hz]
  intro hzx
  exact hα.not_le_of_lt hxy (hα.ordered.trans hy hz hx (hα.le_of_lt hyz) hzx)

theorem le_trans (hxy : x ≤ y) (hyz : y ≤ z) : x ≤ z :=
  hα.ordered.trans (hα.defined hxy).1 (hα.defined hxy).2 (hα.defined hyz).2 hxy hyz

theorem one_beq_zero : ((1 : α) == 0) = false := by
  rw [Bool.eq_false_iff]
  intro h
  exact hα.not_le_of_lt zero_lt_one (hα.beq_iff.mp h).1

/-- Cutting off decides nothing about an undefined number. -/
theorem undefined_clamp (y : α) : undefined (clamp y) = undefined y := by
  unfold clamp
  split_ifs with h0 h1
  · rw [hα.undefined_zero, (hα.defined_of_lt h0).1]
  · rw [hα.isFinite_one.1, (hα.defined_of_lt h1).2]
  · rfl

/-- **A number that is cut off is a degree, unless it is undefined.** -/
theorem clamp_mem_iff (y : α) : 0 ≤ clamp y ∧ clamp y ≤ 1 ↔ undefined y = false := by
  constructor
  · rintro ⟨h, -⟩
    rw [← hα.undefined_clamp]
    exact (hα.defined h).2
  · intro hy
    have hunit : (0 : α) ≤ 1 := hα.le_of_lt zero_lt_one
    unfold clamp
    split_ifs with h0 h1
    · exact ⟨hα.le_refl hα.undefined_zero, hunit⟩
    · exact ⟨hunit, hα.le_refl hα.isFinite_one.1⟩
    · exact ⟨hα.le_of_not_lt hy hα.undefined_zero h0, hα.le_of_not_lt hα.isFinite_one.1 hy h1⟩

/-- The reciprocal of a number that 1 was added to is as defined as this number. -/
theorem undefined_one_div_one_add (y : α) : undefined (1 / (1 + y)) = undefined y := by
  obtain ⟨hone, hfinite⟩ := hα.isFinite_one
  rw [hα.undefined_div, hα.undefined_add y hfinite, hone, hfinite, hα.one_beq_zero]
  simp

theorem undefined_two_mul (y : α) : undefined (2.0 * y) = undefined y := by
  obtain ⟨htwo, hfinite⟩ := hα.isFinite_two
  rw [hα.undefined_mul, htwo, hfinite, hα.two_beq_zero]
  simp

theorem undefined_mul_self (y : α) : undefined (y * y) = undefined y := by
  rw [hα.undefined_mul]
  cases h : isInfinite y with
  | true => simp [hα.beq_zero_of_isInfinite h]
  | false => simp

theorem undefined_sub_of_isFinite (hx : IsFinite x) (y : α) : undefined (x - y) = undefined y := by
  rw [hα.undefined_sub y hx.2, hx.1, Bool.false_or]

end

end Scalar.Special

namespace Shape

open Scalar

/-! ## 2. Degrees that are lost -/

/-- The value lies on a slope that rises over an infinite length, an infinity away from its foot. -/
def lostRise (a b x : α) : Bool := between a x b && isInfinite (x - a) && isInfinite (b - a)

/-- The value lies on a slope that falls over an infinite length, an infinity away from its foot. -/
def lostFall (a b x : α) : Bool := between a x b && isInfinite (b - x) && isInfinite (b - a)

/-- The degree of the value comes to nothing. -/
def lost : Shape α → α → Bool
  | triangular a b c, x => lostRise a b x || lostFall b c x
  | trapezoidal a b c d, x | plateau a b c d, x => lostRise a b x || lostFall c d x
  | leftShoulder a b, x => lostFall a b x
  | rightShoulder a b, x => lostRise a b x
  | gaussian c s, x =>
    let depth := -((x - c) * (x - c))
    let width := 2.0 * (s * s)
    undefined c || undefined s || isInfinite depth && isInfinite width || depth == 0 && width == 0
  | bell w m c, x =>
    (undefined c || undefined w || isInfinite (x - c) && isInfinite w) && !(2.0 * m == 0) ||
      undefined m && !(magnitude ((x - c) / w) == 1)
  | sigmoid s c, x => undefined s || undefined c || isInfinite s && x - c == 0

/-- The shape can be computed, and has a degree at the value. -/
def Answers (s : Shape α) (x : α) : Prop := s.tooWide = false ∧ 0 ≤ s.degree x ∧ s.degree x ≤ 1

/-- The lengths of the slopes of a shape, and what the smooth shapes are scaled by. -/
def widths : Shape α → List α
  | triangular a b c => [b - a, c - b]
  | trapezoidal a b c d | plateau a b c d => [b - a, d - c]
  | gaussian _ s => [2.0 * (s * s)]
  | bell w _ _ => [w]
  | sigmoid s _ => [s]
  | leftShoulder a b | rightShoulder a b => [b - a]

variable {a b c d : α} {s : Shape α}

/-- A shape is lost nowhere if its parameters are defined and its widths are finite and not zero. -/
theorem lost_eq_false (hs : ∀ p ∈ s.params, undefined p = false)
    (hw : ∀ w ∈ s.widths, isInfinite w = false ∧ (w == 0) = false) (x : α) :
    s.lost x = false := by
  cases s with
  | triangular | trapezoidal | leftShoulder | rightShoulder | plateau =>
    simp only [widths, List.forall_mem_cons] at hw
    simp [lost, lostRise, lostFall, hw]
  | gaussian | bell | sigmoid =>
    simp only [params, List.forall_mem_cons] at hs
    simp only [widths, List.forall_mem_cons] at hw
    simp [lost, hs, hw]

/-! ## 3. Slopes -/

theorem lostRise_of_not_between (h : ¬ between a x b = true) : lostRise a b x = false := by
  simp [lostRise, h]

theorem lostFall_of_not_between (h : ¬ between a x b = true) : lostFall a b x = false := by
  simp [lostFall, h]

section

variable (hα : Scalar.Special α)

include hα

theorem between_of_le (h : x ≤ a ∨ b ≤ x) : between a x b = false := by
  rw [Bool.eq_false_iff, Ne, between_iff]
  rintro ⟨hax, hxb⟩
  rcases h with h | h
  · exact hα.not_le_of_lt hax h
  · exact hα.not_le_of_lt hxb h

theorem lostRise_of_le (h : x ≤ a ∨ b ≤ x) : lostRise a b x = false :=
  lostRise_of_not_between (by rw [between_of_le hα h]; exact Bool.false_ne_true)

theorem lostFall_of_le (h : x ≤ a ∨ b ≤ x) : lostFall a b x = false :=
  lostFall_of_not_between (by rw [between_of_le hα h]; exact Bool.false_ne_true)

/-- **The height on a slope is lost if it is a quotient of infinities.**  It is no quotient of
zeros, as the value differs from the foot. -/
theorem undefined_rise (h : between a x b = true) : undefined (rise a b x) = lostRise a b x := by
  obtain ⟨hax, hxb⟩ := between_iff.mp h
  obtain ⟨hn, hn'⟩ := hα.sub_of_lt hax
  obtain ⟨hd, -⟩ := hα.sub_of_lt (hα.lt_trans hax hxb)
  rw [rise, hα.undefined_div, hn, hd, hn', lostRise, h]
  simp

theorem undefined_fall (h : between a x b = true) : undefined (fall a b x) = lostFall a b x := by
  obtain ⟨hax, hxb⟩ := between_iff.mp h
  obtain ⟨hn, hn'⟩ := hα.sub_of_lt hxb
  obtain ⟨hd, -⟩ := hα.sub_of_lt (hα.lt_trans hax hxb)
  rw [fall, hα.undefined_div, hn, hd, hn', lostFall, h]
  simp

/-! ## 4. Shapes -/

theorem undefined_triangularRaw (a b c x : α) :
    undefined (triangularRaw a b c x) = (lostRise a b x || lostFall b c x) := by
  unfold triangularRaw
  split_ifs with hfall hpeak hrise
  · have hbx := hα.le_of_lt (between_iff.mp hfall).1
    rw [undefined_fall hα hfall, lostRise_of_le hα (.inr hbx), Bool.false_or]
  · obtain ⟨hxb, hbx⟩ := hα.beq_iff.mp hpeak
    rw [hα.isFinite_one.1, lostRise_of_le hα (.inr hbx), lostFall_of_le hα (.inl hxb),
      Bool.or_false]
  · have hxb := hα.le_of_lt (between_iff.mp hrise).2
    rw [undefined_rise hα hrise, lostFall_of_le hα (.inl hxb), Bool.or_false]
  · rw [hα.undefined_zero, lostRise_of_not_between hrise, lostFall_of_not_between hfall,
      Bool.or_false]

theorem undefined_trapezoidalRaw (hbc : b ≤ c) (x : α) :
    undefined (trapezoidalRaw a b c d x) = (lostRise a b x || lostFall c d x) := by
  unfold trapezoidalRaw
  split_ifs with hfall hrise hcore
  · have hbx := hα.le_trans hbc (hα.le_of_lt (between_iff.mp hfall).1)
    rw [undefined_fall hα hfall, lostRise_of_le hα (.inr hbx), Bool.false_or]
  · have hxc := hα.le_trans (hα.le_of_lt (between_iff.mp hrise).2) hbc
    rw [undefined_rise hα hrise, lostFall_of_le hα (.inl hxc), Bool.or_false]
  · rw [hα.isFinite_one.1, lostRise_of_not_between hrise, lostFall_of_not_between hfall,
      Bool.or_false]
  · rw [hα.undefined_zero, lostRise_of_not_between hrise, lostFall_of_not_between hfall,
      Bool.or_false]

theorem undefined_leftShoulderRaw (a b x : α) :
    undefined (leftShoulderRaw a b x) = lostFall a b x := by
  unfold leftShoulderRaw
  split_ifs with hcore hfall
  · rw [hα.isFinite_one.1, lostFall_of_le hα (.inl hcore)]
  · exact undefined_fall hα hfall
  · rw [hα.undefined_zero, lostFall_of_not_between hfall]

theorem undefined_rightShoulderRaw (a b x : α) :
    undefined (rightShoulderRaw a b x) = lostRise a b x := by
  unfold rightShoulderRaw
  split_ifs with hcore hfoot hrise
  · rw [hα.isFinite_one.1, lostRise_of_le hα (.inr hcore)]
  · rw [hα.undefined_zero, lostRise_of_le hα (.inl hfoot)]
  · exact undefined_rise hα hrise
  · rw [hα.isFinite_one.1, lostRise_of_not_between hrise]

theorem undefined_plateauRaw (hbc : b ≤ c) (x : α) :
    undefined (plateauRaw a b c d x) = (lostRise a b x || lostFall c d x) := by
  unfold plateauRaw
  by_cases hxb : x ≤ b
  · have hxc := hα.le_trans hxb hbc
    rw [if_pos hxb, hα.undefined_clamp, undefined_rightShoulderRaw hα,
      lostFall_of_le hα (.inl hxc), Bool.or_false]
  have hrise : lostRise a b x = false :=
    lostRise_of_not_between fun h => hxb (hα.le_of_lt (between_iff.mp h).2)
  rw [if_neg hxb, hrise, Bool.false_or]
  split_ifs with hxc
  · rw [hα.isFinite_one.1, lostFall_of_le hα (.inl hxc)]
  · rw [hα.undefined_clamp, undefined_leftShoulderRaw hα]

theorem undefined_gaussianRaw (hs : ¬ b ≤ 0) (hx : IsFinite x) :
    undefined (gaussianRaw a b x) = (gaussian a b).lost x := by
  have hspread : ¬ (b == 0) = true := fun h => hs (hα.beq_iff.mp h).1
  rw [gaussianRaw, if_neg hspread, hα.undefined_exp, hα.undefined_div, hα.undefined_neg,
    hα.undefined_mul_self, hα.undefined_sub_of_isFinite hx, hα.undefined_two_mul,
    hα.undefined_mul_self]
  rfl

theorem undefined_bellRaw (hw : (a == 0) = false) (hx : IsFinite x) :
    undefined (bellRaw a b c x) = (bell a b c).lost x := by
  rw [bellRaw, if_neg (by rw [hw]; exact Bool.false_ne_true), hα.undefined_one_div_one_add,
    hα.undefined_power _ (hα.magnitude_not_neg _), hα.undefined_magnitude, hα.undefined_div,
    hα.undefined_sub_of_isFinite hx, hα.undefined_two_mul, hw, Bool.and_false, Bool.or_false]
  rfl

theorem undefined_sigmoidRaw (hs : (a == 0) = false) (hx : IsFinite x) :
    undefined (sigmoidRaw a b x) = (sigmoid a b).lost x := by
  rw [sigmoidRaw, logistic, hα.undefined_one_div_one_add, hα.undefined_exp, hα.undefined_neg,
    hα.undefined_mul, hα.undefined_sub_of_isFinite hx, hs, Bool.false_and, Bool.or_false]
  rfl

/-- **An accepted shape has an undefined degree exactly where it is lost.** -/
theorem undefined_degree (hs : s.check = .ok ()) (hx : IsFinite x) :
    undefined (s.degree x) = s.lost x := by
  refine (hα.undefined_clamp _).trans ?_
  cases s with
  | triangular a b c => exact undefined_triangularRaw hα a b c x
  | trapezoidal a b c d => exact undefined_trapezoidalRaw hα (check_trapezoidal.mp hs).2.1 x
  | gaussian c s => exact undefined_gaussianRaw hα (check_gaussian.mp hs) hx
  | bell w m c => exact undefined_bellRaw hα (check_bell.mp hs) hx
  | sigmoid m c => exact undefined_sigmoidRaw hα (check_sigmoid.mp hs) hx
  | leftShoulder a b => exact undefined_leftShoulderRaw hα a b x
  | rightShoulder a b => exact undefined_rightShoulderRaw hα a b x
  | plateau a b c d => exact undefined_plateauRaw hα (check_plateau.mp hs).2.1 x

/-- **An accepted shape has a degree exactly where it is not lost**, if it can be computed. -/
theorem answers_iff_of_check (hs : s.check = .ok ()) (hx : IsFinite x) :
    s.Answers x ↔ s.tooWide = false ∧ s.lost x = false := by
  have hmem : 0 ≤ s.degree x ∧ s.degree x ≤ 1 ↔ s.lost x = false := by
    rw [← undefined_degree hα hs hx]
    exact (hα.clamp_mem_iff _).trans (by rw [degree, hα.undefined_clamp])
  rw [Answers, hmem]

/-- **Of the shapes with an undefined parameter only smooth ones are accepted**: between breakpoints
the comparisons have to hold. -/
theorem smooth_of_undefined (hs : s.check = .ok ()) (h : ∃ p ∈ s.params, undefined p = true) :
    s.kind = .gaussian ∨ s.kind = .bell ∨ s.kind = .sigmoid := by
  cases s with
  | triangular a b c =>
    obtain ⟨hab, hbc⟩ := check_triangular.mp hs
    simp [params, hα.defined_of_lt hab, hα.defined_of_lt hbc] at h
  | trapezoidal a b c d =>
    obtain ⟨hab, -, hcd⟩ := check_trapezoidal.mp hs
    simp [params, hα.defined_of_lt hab, hα.defined_of_lt hcd] at h
  | plateau a b c d =>
    obtain ⟨hab, -, hcd⟩ := check_plateau.mp hs
    simp [params, hα.defined_of_lt hab, hα.defined_of_lt hcd] at h
  | leftShoulder a b =>
    have hab := check_leftShoulder.mp hs
    simp [params, hα.defined_of_lt hab] at h
  | rightShoulder a b =>
    have hab := check_rightShoulder.mp hs
    simp [params, hα.defined_of_lt hab] at h
  | gaussian => exact .inl rfl
  | bell => exact .inr (.inl rfl)
  | sigmoid => exact .inr (.inr rfl)

/-- **What is left to check of an accepted definition**: if its parameters are defined and its widths
are finite and not zero, it has a degree at every finite value. -/
theorem answers_of_widths (hs : s.check = .ok ()) (hp : ∀ p ∈ s.params, undefined p = false)
    (hw : ∀ w ∈ s.widths, isInfinite w = false ∧ (w == 0) = false) (hx : IsFinite x) :
    s.Answers x := by
  refine (answers_iff_of_check hα hs hx).mpr ⟨?_, lost_eq_false hp hw x⟩
  cases s with
  | gaussian c s =>
    have hsquare : ¬ isInfinite (s * s) = true := by
      intro h
      rw [widths, List.forall_mem_singleton, hα.isInfinite_two_mul h] at hw
      cases hw.1
    simp [tooWide, hsquare]
  | triangular | trapezoidal | bell | sigmoid | leftShoulder | rightShoulder | plateau => rfl

end

/-! ## 5. Doubles -/

section

variable {exp : Float → Float} {power : Float → Float → Float} {kind : String}
  {params : List (Document (DoubleWith exp power))} {s : Shape (DoubleWith exp power)}
  {x : DoubleWith exp power}

/-- **When an accepted definition gives an answer, in doubles.**  At a finite value the degree is
undefined exactly if the shape is lost there, and a degree otherwise, unless the square of a spread
is beyond the doubles. -/
theorem answers_iff (hexp : ∀ x, undefined (exp x) = undefined x)
    (hpower : ∀ {x} y, ¬ x < 0 →
      undefined (power x y) = (undefined x && !(y == 0) || undefined y && !(x == 1)))
    (hs : define kind params = .ok s) (hx : IsFinite x) :
    undefined (s.degree x) = s.lost x ∧ (s.Answers x ↔ s.tooWide = false ∧ s.lost x = false) := by
  have hspecial := special_doubleWith hexp hpower
  have hcheck := (define_spec hs).2
  exact ⟨undefined_degree hspecial hcheck hx, answers_iff_of_check hspecial hcheck hx⟩

end

/-- An exponential that is right at 0. -/
def flatExp (x : Float) : Float := if undefined x then x else 1

/-- A power that is right for the bases 0 and 1, and for the exponent 0. -/
def flatPower (x y : Float) : Float :=
  if x == 1 || y == 0 then 1 else if undefined x || undefined y then nothing else x

/-- Doubles with this exponential and this power. -/
abbrev Flat : Type := DoubleWith flatExp flatPower

theorem undefined_flatExp (x : Float) : undefined (flatExp x) = undefined x := by
  unfold flatExp
  split_ifs with h
  · rfl
  · rw [Decimal.isFinite_one.1, eq_false_of_ne_true h]

theorem undefined_flatPower (x y : Float) : undefined (flatPower x y) =
    (undefined x && !(y == 0) || undefined y && !(x == 1)) := by
  have hdefined : ∀ {z w : Float}, (z == w) = true → undefined z = false := fun h =>
    (Decimal.comparable_double.defined (Decimal.beq_iff_le.mp h).1).1
  unfold flatPower
  cases hx : x == 1 with
  | true => simp [hdefined hx, Decimal.isFinite_one.1]
  | false =>
    cases hy : y == 0 with
    | true => simp [hdefined hy, Decimal.isFinite_one.1]
    | false =>
      have hnothing : undefined (nothing : Float) = true := by decide +kernel
      cases hx' : undefined x <;> cases hy' : undefined y <;> simp [hx', hnothing]

/-- A bell curve of spread 0.25 answers at its centre.  One of undefined spread is accepted, too,
and has no degree there. -/
theorem answers_iff_spread : IsFinite (0.5 : Flat) ∧
    (define "gaussian" [.real (0.5 : Flat), .real 0.25] = .ok (gaussian 0.5 0.25) ∧
      (gaussian 0.5 0.25).Answers (0.5 : Flat)) ∧
    define "gaussian" [.real (0.5 : Flat), .real nothing] = .ok (gaussian 0.5 nothing) ∧
      undefined ((gaussian 0.5 nothing).degree (0.5 : Flat)) = true := by
  have hhalf : IsFinite (0.5 : Flat) := ⟨by decide +kernel, by decide +kernel⟩
  have hnarrow : (gaussian 0.5 (0.25 : Flat)).check = .ok () :=
    check_gaussian.mpr (by decide +kernel)
  have hundefined : (gaussian 0.5 (nothing : Flat)).check = .ok () :=
    check_gaussian.mpr (by decide +kernel)
  have hanswers := answers_iff undefined_flatExp (fun y _ => undefined_flatPower _ y)
    (define_params hnarrow) hhalf
  have hlost := answers_iff undefined_flatExp (fun y _ => undefined_flatPower _ y)
    (define_params hundefined) hhalf
  refine ⟨hhalf, ⟨define_params hnarrow, hanswers.2.mpr ⟨?_, ?_⟩⟩, define_params hundefined,
    hlost.1.trans ?_⟩
  · decide +kernel
  · decide +kernel
  · decide +kernel

end Shape

namespace Doubles

/-- **Not every accepted definition gives an answer**: a shoulder may rise from minus infinity, and
then its height at 0 is a quotient of infinities. -/
theorem not_answers : ¬ ∀ (kind : String) (params : List (Document Float)) (s : Shape Float)
    (x : Float), Shape.define kind params = .ok s → Scalar.IsFinite x → s.Answers x := by
  intro h
  have hcheck : (Shape.rightShoulder (-Scalar.infinity) (0.5 : Float)).check = .ok () :=
    Shape.check_rightShoulder.mpr (by decide +kernel)
  have hzero : Scalar.IsFinite (0 : Float) := ⟨by decide +kernel, by decide +kernel⟩
  obtain ⟨-, hnonneg, -⟩ := h _ _ _ 0 (Shape.define_params hcheck) hzero
  exact absurd hnonneg (by decide +kernel)

end Doubles

end Graded
