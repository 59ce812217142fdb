/-
# Numbers that can be compared

What is said of a sort holds in every arithmetic whose defined numbers are in a linear order, if
nothing else can be compared (`Scalar.Comparable`).  Exact arithmetic is like that, as all of its
numbers are defined.

So are doubles.  They are compared by their signs first, and those of one sign by their exponents
and then by their mantissas.  This is the order of triples of whole numbers (`Decimal.place`,
`compare_eq_cmp`).  The undefined number is compared to nothing, so it is left out of this order
(`comparable_double`).
-/
import Graded.Proofs.Leading
import Graded.Proofs.Doubles

namespace Graded

/-! ## 1. Arithmetics -/

/-- The numbers that can be compared are defined, and the defined numbers are in a linear order. -/
structure Scalar.Comparable (α : Type) [Scalar α] : Prop where
  defined : ∀ {x y : α}, x ≤ y → undefined x = false ∧ undefined y = false
  defined_of_lt : ∀ {x y : α}, x < y → undefined x = false ∧ undefined y = false
  ordered : Scalar.Ordered fun x : α => undefined x = false

theorem Scalar.comparable_real : Scalar.Comparable ℝ where
  defined _ := ⟨undefined_eq_false _, undefined_eq_false _⟩
  defined_of_lt _ := ⟨undefined_eq_false _, undefined_eq_false _⟩
  ordered := ⟨fun _ _ => le_total _ _, fun _ _ _ => le_trans, fun _ _ => not_le.symm⟩

/-! ## 2. Doubles -/

namespace Decimal

open Float.Model Float.Model.UnpackedFloat

variable {a b : UnpackedFloat} {x y : Float}

/-- Where a number stands: the infinities at the ends, then the signs, the exponents and the
mantissas.  Those of negative numbers count backwards. -/
def place : UnpackedFloat → ℤ ×ₗ ℤ ×ₗ ℤ
  | .infinity .negative => toLex (-2, toLex (0, 0))
  | .finite .negative m e _ => toLex (-1, toLex (-e, -m))
  | .zero _ | .notANumber => toLex (0, toLex (0, 0))
  | .finite .positive m e _ => toLex (1, toLex (e, m))
  | .infinity .positive => toLex (2, toLex (0, 0))

/-- Within one sign the exponents decide, and between equal exponents the mantissas. -/
theorem compare_then_compare (s e e' : ℤ) (m m' : ℕ) : (compare e e').then (compare m m') =
    cmp (toLex (s, toLex (e, (m : ℤ)))) (toLex (s, toLex (e', (m' : ℤ)))) := by
  simp only [cmp, cmpUsing, Prod.Lex.toLex_lt_toLex, Nat.cast_lt, lt_irrefl, true_and, false_or]
  rcases lt_trichotomy e e' with he | rfl | he
  · simp [compare_lt_iff_lt.mpr he, he]
  · rcases lt_trichotomy m m' with hm | rfl | hm
    · simp [compare_lt_iff_lt.mpr hm, hm]
    · simp
    · simp [compare_gt_iff_gt.mpr hm, hm, hm.not_gt]
  · simp [compare_gt_iff_gt.mpr he, he, he.not_gt, he.ne']

/-- To count backwards is to compare the other way. -/
theorem cmp_neg (s e e' m m' : ℤ) :
    cmp (toLex (s, toLex (-e, -m))) (toLex (s, toLex (-e', -m'))) =
      (cmp (toLex (s, toLex (e, m))) (toLex (s, toLex (e', m')))).swap := by
  rw [cmp_swap]
  simp [cmp, cmpUsing, Prod.Lex.toLex_lt_toLex, eq_comm]

/-- **Numbers are compared by their places.** -/
theorem compare_eq_cmp (ha : a ≠ .notANumber) (hb : b ≠ .notANumber) :
    a.compare b = some (cmp (place a) (place b)) := by
  cases a with
  | notANumber => exact absurd rfl ha
  | infinity s =>
    cases b with
    | notANumber => exact absurd rfl hb
    | infinity t => cases s <;> cases t <;> rfl
    | zero t => cases s <;> rfl
    | finite t m e h => cases s <;> cases t <;> rfl
  | zero s =>
    cases b with
    | notANumber => exact absurd rfl hb
    | infinity t => cases t <;> rfl
    | zero t => rfl
    | finite t m e h => cases t <;> rfl
  | finite s m e h =>
    cases b with
    | notANumber => exact absurd rfl hb
    | infinity t => cases s <;> cases t <;> rfl
    | zero t => cases s <;> rfl
    | finite t m' e' h' =>
      cases s with
      | negative =>
        cases t with
        | negative =>
          rw [place, place, cmp_neg, ← compare_then_compare]
          rfl
        | positive => rfl
      | positive =>
        cases t with
        | negative => rfl
        | positive =>
          rw [place, place, ← compare_then_compare]
          rfl

theorem le_iff_le : x ≤ y ↔ x.toModel.unpack.le y.toModel.unpack = true := by
  change Float.le x y = true ↔ _
  simp only [Float.le, decide_eq_true_eq]
  rfl

theorem lt_iff_lt : x < y ↔ x.toModel.unpack.lt y.toModel.unpack = true := by
  change Float.lt x y = true ↔ _
  simp only [Float.lt, decide_eq_true_eq]
  rfl

/-- What can be compared is defined. -/
theorem defined_of_compare {o : Ordering} (h : a.compare b = some o) :
    a ≠ .notANumber ∧ b ≠ .notANumber := by
  constructor
  · rintro rfl
    cases h
  · rintro rfl
    cases a with
    | notANumber | infinity | zero | finite => cases h

/-- The undefined number is the one that is not equal to itself. -/
theorem undefined_eq (x : Float) : Scalar.undefined x = x.toModel.unpack.isNaN := by
  have hbeq : Scalar.undefined x = !(x.toModel.unpack.beq x.toModel.unpack) := rfl
  rw [hbeq, UnpackedFloat.beq]
  cases x.toModel.unpack with
  | notANumber => rfl
  | infinity | zero | finite =>
    rw [compare_self UnpackedFloat.noConfusion]
    rfl

theorem undefined_eq_false_iff : Scalar.undefined x = false ↔ x.toModel.unpack ≠ .notANumber := by
  rw [undefined_eq]
  cases x.toModel.unpack with
  | notANumber => exact iff_of_false Bool.true_eq_false.mp fun h => h rfl
  | infinity | zero | finite => exact iff_of_true rfl UnpackedFloat.noConfusion

theorem le_iff_place (hx : Scalar.undefined x = false) (hy : Scalar.undefined y = false) :
    x ≤ y ↔ place x.toModel.unpack ≤ place y.toModel.unpack := by
  rw [le_iff_le, UnpackedFloat.le, compare_eq_cmp (undefined_eq_false_iff.mp hx)
    (undefined_eq_false_iff.mp hy), Option.any_some, Ordering.isLE_iff_ne_gt, cmp_eq_gt_iff,
    not_lt]

theorem lt_iff_place (hx : Scalar.undefined x = false) (hy : Scalar.undefined y = false) :
    x < y ↔ place x.toModel.unpack < place y.toModel.unpack := by
  rw [lt_iff_lt, UnpackedFloat.lt, compare_eq_cmp (undefined_eq_false_iff.mp hx)
    (undefined_eq_false_iff.mp hy), beq_iff_eq, Option.some_inj, cmp_eq_lt_iff]

/-- **Doubles can be compared**, and the undefined one cannot. -/
theorem comparable_double : Scalar.Comparable Float where
  defined {x y} h := by
    rw [le_iff_le, UnpackedFloat.le, Option.any_eq_true] at h
    obtain ⟨o, ho, -⟩ := h
    rw [undefined_eq_false_iff, undefined_eq_false_iff]
    exact defined_of_compare ho
  defined_of_lt {x y} h := by
    rw [lt_iff_lt, UnpackedFloat.lt, beq_iff_eq] at h
    rw [undefined_eq_false_iff, undefined_eq_false_iff]
    exact defined_of_compare h
  ordered := by
    refine ⟨fun hx hy => ?_, fun hx hy hz hxy hyz => ?_, fun hx hy => ?_⟩
    · rw [le_iff_place hx hy, le_iff_place hy hx]
      exact le_total _ _
    · rw [le_iff_place hx hy] at hxy
      rw [le_iff_place hy hz] at hyz
      exact (le_iff_place hx hz).mpr (hxy.trans hyz)
    · rw [lt_iff_place hx hy, le_iff_place hy hx, not_le]

end Decimal
end Graded
