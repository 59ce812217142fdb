/-
# Exact arithmetic

Theorems about degrees are stated at the real numbers, where the operations of `Scalar` obey the
laws of an ordered field and no number is undefined or infinite.  Decimals are read as the
rationals that they denote, `exp` and `power` are the real functions, and the two families of
comparisons (`least` and `lesser`, `greatest` and `larger`), which differ in what they do with an
undefined comparand, are `min` and `max`.

* `clamp_eq_self_iff`: what is cut off changes only outside the unit interval;
* `total_eq_sum`, `cumulate_eq_map`: sums from the left are sums; `sum_scaled`: sums scale;
* `foldl_perm`: a fold does not depend on the order of a list, if two steps of it commute in every
  state that it can reach;
* `foldl_max_le_iff`, `le_foldl_min_iff`: the greatest and the least of a list by their bounds.
-/
import Mathlib
import Graded.Scalar

namespace Graded

/-! ## 1. The real numbers -/

/-- Exact arithmetic. -/
noncomputable instance Scalar.exact : Scalar ℝ where
  ofScientific digits negative exponent := (OfScientific.ofScientific digits negative exponent : ℝ)
  beq a b := decide (a = b)
  ltDec := inferInstance
  leDec := inferInstance
  magnitude := abs
  exp := Real.exp
  power := Real.rpow
  isInfinite _ := false
  truncate x := some (if x < 0 then ⌈x⌉ else ⌊x⌋)
  zero_lt_one := Real.zero_lt_one

namespace Scalar

/-! ## 2. Comparisons -/

@[simp] theorem undefined_eq_false (x : ℝ) : undefined x = false := by simp [undefined]

theorem least_eq_min (a b : ℝ) : least a b = min a b := by
  rw [least, min_comm, min_def_lt]

theorem greatest_eq_max (a b : ℝ) : greatest a b = max a b := by
  rw [greatest, max_def_lt]

theorem lesser_eq_min (a b : ℝ) : lesser a b = min a b := by simp [lesser, min_def]

theorem larger_eq_max (a b : ℝ) : larger a b = max a b := by
  simp [larger, max_comm a b, max_def]

/-! ## 3. Cutting off -/

theorem clamp_eq (x : ℝ) : clamp x = max 0 (min 1 x) := by
  unfold clamp
  split_ifs with h0 h1
  · rw [min_eq_right (by linarith), max_eq_left h0.le]
  · rw [min_eq_left h1.le, max_eq_right zero_le_one]
  · rw [min_eq_right (not_lt.mp h1), max_eq_right (not_lt.mp h0)]

theorem clamp_mem (x : ℝ) : clamp x ∈ unitInterval := by
  rw [clamp_eq]
  exact ⟨le_max_left _ _, max_le zero_le_one (min_le_left _ _)⟩

theorem clamp_mono {x y : ℝ} (h : x ≤ y) : clamp x ≤ clamp y := by
  rw [clamp_eq, clamp_eq]
  exact max_le_max le_rfl (min_le_min le_rfl h)

theorem clamp_eq_self_iff {x : ℝ} : clamp x = x ↔ x ∈ unitInterval := by
  constructor
  · intro h
    exact h ▸ clamp_mem x
  · rintro ⟨h0, h1⟩
    rw [clamp_eq, min_eq_right h1, max_eq_right h0]

/-- Above the unit interval everything is cut off at its upper end. -/
theorem clamp_of_one_le {x : ℝ} (h : 1 ≤ x) : clamp x = 1 := by
  rw [clamp_eq, min_eq_left h, max_eq_right zero_le_one]

/-- Below the unit interval everything is cut off at its lower end. -/
theorem clamp_of_nonpos {x : ℝ} (h : x ≤ 0) : clamp x = 0 := by
  rw [clamp_eq, max_eq_left ((min_le_right 1 x).trans h)]

/-- Cutting off leaves a number positive or not. -/
theorem clamp_pos_iff {x : ℝ} : 0 < clamp x ↔ 0 < x := by
  rw [clamp_eq, lt_max_iff, lt_min_iff]
  simp

/-- Cutting off does not change which heights within the unit interval are reached. -/
theorem le_clamp_iff {h x : ℝ} (h0 : 0 < h) (h1 : h ≤ 1) : h ≤ clamp x ↔ h ≤ x := by
  rw [clamp_eq, le_max_iff, le_min_iff]
  constructor
  · rintro (hle | ⟨-, hle⟩)
    · exact absurd hle h0.not_ge
    · exact hle
  · intro hle
    exact .inr ⟨h1, hle⟩

theorem clamp_eq_zero_iff {x : ℝ} : clamp x = 0 ↔ x ≤ 0 := by
  rw [← not_lt, ← clamp_pos_iff, not_lt]
  exact ⟨fun h => h.le, fun h => le_antisymm h (clamp_mem x).1⟩

/-- What is cut off at one end is left over at the other. -/
theorem clamp_one_sub (x : ℝ) : clamp (1 - x) = 1 - clamp x := by
  rcases le_total x 0 with h0 | h0
  · rw [clamp_of_nonpos h0, clamp_of_one_le (by linarith), sub_zero]
  · rcases le_total 1 x with h1 | h1
    · rw [clamp_of_one_le h1, clamp_of_nonpos (by linarith), sub_self]
    · rw [clamp_eq_self_iff.mpr ⟨h0, h1⟩, clamp_eq_self_iff.mpr ⟨by linarith, by linarith⟩]

/-! ## 4. Lists of numbers -/

/-- A 2 that is written as a decimal. -/
theorem two_eq : (2.0 : ℝ) = 2 := by norm_num

/-- A sum on another scale. -/
theorem sum_scaled (k : ℝ) (xs : List ℝ) : (xs.map (k * ·)).sum = k * xs.sum := by
  simpa using List.sum_map_mul_left xs id k

theorem total_eq_sum (xs : List ℝ) : total xs = xs.sum :=
  List.sum_eq_foldl.symm

theorem mean_eq (xs : List ℝ) : mean xs = xs.sum / xs.length := by rw [mean, total_eq_sum]

/-- The partial sums are the sums of the initial parts. -/
theorem cumulate_eq_map (start : ℝ) (xs : List ℝ) :
    cumulate start xs = (List.range xs.length).map fun i => start + (xs.take (i + 1)).sum := by
  induction xs generalizing start with
  | nil => rfl
  | cons x xs ih =>
    rw [cumulate_cons, ih, List.length_cons, List.range_succ_eq_map, List.map_cons, List.map_map]
    simp [Function.comp_def, add_assoc]

end Scalar

/-! ## 5. Folds in any order -/

/-- A fold over a list does not depend on the order of the list, if its steps keep a property of
the state, and any two of them commute in a state that has it. -/
theorem foldl_perm {β γ : Type} {step : γ → β → γ} {Reached : γ → Prop} {Admitted : β → Prop}
    (keeps : ∀ z x, Reached z → Admitted x → Reached (step z x))
    (commutes : ∀ z x y, Reached z → Admitted x → Admitted y →
      step (step z x) y = step (step z y) x)
    {xs ys : List β} (h : xs.Perm ys) :
    ∀ z, Reached z → (∀ x ∈ xs, Admitted x) → xs.foldl step z = ys.foldl step z := by
  induction h with
  | nil => intro z _ _; rfl
  | cons x _ ih =>
    intro z hz hx
    exact ih _ (keeps z x hz (hx x List.mem_cons_self)) fun y hy => hx y (List.mem_cons_of_mem _ hy)
  | swap x y l =>
    intro z hz hx
    have hxa : Admitted x := hx x (by simp)
    have hya : Admitted y := hx y (by simp)
    rw [List.foldl_cons, List.foldl_cons, List.foldl_cons, List.foldl_cons,
      commutes z y x hz hya hxa]
  | trans h₁ _ ih₁ ih₂ =>
    intro z hz hx
    exact (ih₁ z hz hx).trans (ih₂ z hz fun y hy => hx y (h₁.mem_iff.mpr hy))

/-! ## 6. Greatest and least elements -/

theorem foldl_max_le_iff {xs : List ℝ} {a y : ℝ} :
    xs.foldl max a ≤ y ↔ a ≤ y ∧ ∀ x ∈ xs, x ≤ y := by
  induction xs generalizing a with
  | nil => simp
  | cons x xs ih => rw [List.foldl_cons, ih, max_le_iff, List.forall_mem_cons, and_assoc]

theorem foldl_max_lt_iff {xs : List ℝ} {a y : ℝ} :
    xs.foldl max a < y ↔ a < y ∧ ∀ x ∈ xs, x < y := by
  induction xs generalizing a with
  | nil => simp
  | cons x xs ih => rw [List.foldl_cons, ih, max_lt_iff, List.forall_mem_cons, and_assoc]

theorem le_foldl_min_iff {xs : List ℝ} {a y : ℝ} :
    y ≤ xs.foldl min a ↔ y ≤ a ∧ ∀ x ∈ xs, y ≤ x := by
  induction xs generalizing a with
  | nil => simp
  | cons x xs ih => rw [List.foldl_cons, ih, le_min_iff, List.forall_mem_cons, and_assoc]

end Graded
