/-
# The laws of norms and conorms

On the unit interval a triangular norm is a commutative and associative conjunction with neutral
element 1, and a conorm a disjunction with neutral element 0.  The laws hold for Hamacher's family
at every parameter that is not negative (`Proper`), hence for every norm with a name.

Hamacher's quotient is where they are not obvious.  Its denominator vanishes on the unit interval
only at `gamma = 0` and `a = b = 0`, where the dividend vanishes too; so `apply` never fails there
and `value` is the bare quotient, which makes associativity one identity of polynomials
(`hamacher_nested`).

What is proved of two degrees is then read off for lists of them: `all_eq` says that the
conjunction of a list is a fold that cannot fail, `value_right_comm` and `foldl_perm` that its
order does not matter.
-/
import Graded.Proofs.Exact
import Graded.Norm

namespace Graded

namespace TNorm

/-! ## 1. Proper norms -/

/-- A norm whose parameter, if it has one, is not negative. -/
def Proper : TNorm ℝ → Prop
  | hamacher gamma => 0 ≤ gamma
  | _ => True

/-- Every norm with a name is proper. -/
theorem proper_of_mem_catalogue {entry : String × TNorm ℝ} (h : entry ∈ catalogue) :
    entry.2.Proper := by
  simp only [catalogue, List.mem_cons, List.not_mem_nil, or_false] at h
  rcases h with rfl | rfl | rfl | rfl | rfl <;> simp [Proper]

/-! ## 2. Hamacher's quotient -/

variable {gamma a b c : ℝ}

/-- One formula for the denominator covers the parameter 0 as well. -/
theorem hamacherDenominator_eq (gamma a b : ℝ) :
    hamacherDenominator gamma a b = gamma + (1 - gamma) * (a + b - a * b) := by
  by_cases h : gamma = 0
  · simp [hamacherDenominator, h]
  · simp [hamacherDenominator, h]

/-- The denominator as a sum of two parts that are not negative on the unit interval. -/
theorem hamacherDenominator_split (gamma a b : ℝ) :
    hamacherDenominator gamma a b = gamma * ((1 - a) * (1 - b)) + (a * (1 - b) + b) := by
  rw [hamacherDenominator_eq]
  ring

theorem mul_le_hamacherDenominator (hg : 0 ≤ gamma) (ha : a ∈ unitInterval)
    (hb : b ∈ unitInterval) : a * b ≤ hamacherDenominator gamma a b := by
  have h1 : 0 ≤ gamma * ((1 - a) * (1 - b)) :=
    mul_nonneg hg (mul_nonneg (sub_nonneg.mpr ha.2) (sub_nonneg.mpr hb.2))
  have h2 : 0 ≤ a * (1 - b) := mul_nonneg ha.1 (sub_nonneg.mpr hb.2)
  have h3 : a * b ≤ b := mul_le_of_le_one_left hb.1 ha.2
  rw [hamacherDenominator_split]
  linarith

theorem hamacherDenominator_nonneg (hg : 0 ≤ gamma) (ha : a ∈ unitInterval)
    (hb : b ∈ unitInterval) : 0 ≤ hamacherDenominator gamma a b :=
  (mul_nonneg ha.1 hb.1).trans (mul_le_hamacherDenominator hg ha hb)

/-- **The denominator vanishes at one corner only**, and only in the Hamacher product. -/
theorem hamacherDenominator_eq_zero (hg : 0 ≤ gamma) (ha : a ∈ unitInterval)
    (hb : b ∈ unitInterval) :
    hamacherDenominator gamma a b = 0 ↔ gamma = 0 ∧ a = 0 ∧ b = 0 := by
  constructor
  · intro h
    rw [hamacherDenominator_split] at h
    have h1 : 0 ≤ gamma * ((1 - a) * (1 - b)) :=
      mul_nonneg hg (mul_nonneg (sub_nonneg.mpr ha.2) (sub_nonneg.mpr hb.2))
    have h2 : 0 ≤ a * (1 - b) := mul_nonneg ha.1 (sub_nonneg.mpr hb.2)
    have hb0 : b = 0 := by linarith [hb.1]
    have ha0 : a = 0 := by
      rw [hb0] at h h1
      linarith [ha.1]
    refine ⟨?_, ha0, hb0⟩
    rw [ha0, hb0] at h
    linarith
  · rintro ⟨rfl, rfl, rfl⟩
    simp [hamacherDenominator]

/-- Where a guard answers 0, the quotient is 0 as well. -/
theorem value_hamacher (gamma a b : ℝ) :
    (hamacher gamma).value a b = a * b / hamacherDenominator gamma a b := by
  by_cases hg : gamma = 0
  · by_cases h0 : a = 0 ∧ b = 0
    · simp [value, hg, h0]
    · simp [value, hg, h0]
  · by_cases hd : hamacherDenominator gamma a b = 0
    · simp [value, hg, hd]
    · simp [value, hg, hd]

theorem value_hamacher_mem (hg : 0 ≤ gamma) (ha : a ∈ unitInterval) (hb : b ∈ unitInterval) :
    (hamacher gamma).value a b ∈ unitInterval := by
  rw [value_hamacher]
  exact ⟨div_nonneg (mul_nonneg ha.1 hb.1) (hamacherDenominator_nonneg hg ha hb),
    div_le_one_of_le₀ (mul_le_hamacherDenominator hg ha hb) (hamacherDenominator_nonneg hg ha hb)⟩

/-- The denominator of a conjunction of three degrees. -/
noncomputable def hamacherTriple (gamma a b c : ℝ) : ℝ :=
  gamma * hamacherDenominator gamma a b +
    (1 - gamma) * (a * b + c * hamacherDenominator gamma a b - a * b * c)

/-- It does not matter which two of the three are joined first. -/
theorem hamacherTriple_rotate (gamma a b c : ℝ) :
    hamacherTriple gamma a b c = hamacherTriple gamma b c a := by
  simp only [hamacherTriple, hamacherDenominator_eq]
  ring

/-- **A nested quotient is one quotient.** -/
theorem hamacher_nested (hg : 0 ≤ gamma) (ha : a ∈ unitInterval) (hb : b ∈ unitInterval) :
    (hamacher gamma).value ((hamacher gamma).value a b) c =
      a * b * c / hamacherTriple gamma a b c := by
  by_cases hd : hamacherDenominator gamma a b = 0
  · obtain ⟨rfl, rfl, rfl⟩ := (hamacherDenominator_eq_zero hg ha hb).mp hd
    simp [value_hamacher]
  · have hm : a * b / hamacherDenominator gamma a b * hamacherDenominator gamma a b = a * b :=
      div_mul_cancel₀ _ hd
    have key : hamacherDenominator gamma a b *
        hamacherDenominator gamma (a * b / hamacherDenominator gamma a b) c =
          hamacherTriple gamma a b c := by
      rw [hamacherDenominator_eq gamma (a * b / _) c, hamacherTriple]
      linear_combination (1 - gamma) * (1 - c) * hm
    rw [value_hamacher, value_hamacher, ← key, div_mul_eq_mul_div, div_div]

/-! ## 3. The laws of norms -/

variable {t : TNorm ℝ}

/-- **No proper norm fails on degrees.** -/
theorem apply_eq (ht : t.Proper) (ha : a ∈ unitInterval) (hb : b ∈ unitInterval) :
    t.apply a b = .ok (t.value a b) := by
  have hf : t.fails a b = false := by
    cases t with
    | hamacher gamma =>
      by_cases hd : hamacherDenominator gamma a b = 0
      · obtain ⟨rfl, rfl, rfl⟩ := (hamacherDenominator_eq_zero ht ha hb).mp hd
        simp [fails]
      · simp [fails, hd]
    | _ => rfl
  simp [apply, hf]

theorem value_mem (ht : t.Proper) (ha : a ∈ unitInterval) (hb : b ∈ unitInterval) :
    t.value a b ∈ unitInterval := by
  obtain ⟨ha0, ha1⟩ := ha
  obtain ⟨hb0, hb1⟩ := hb
  cases t with
  | minimum =>
    rw [value, Scalar.least_eq_min]
    exact ⟨le_min ha0 hb0, (min_le_left a b).trans ha1⟩
  | product => exact unitInterval.mul_mem ⟨ha0, ha1⟩ ⟨hb0, hb1⟩
  | lukasiewicz =>
    rw [value, Scalar.greatest_eq_max]
    exact ⟨le_max_left _ _, max_le zero_le_one (by linarith)⟩
  | drastic =>
    simp only [value, beq_iff_eq]
    split_ifs
    · exact ⟨hb0, hb1⟩
    · exact ⟨ha0, ha1⟩
    · exact unitInterval.zero_mem
  | hamacher gamma => exact value_hamacher_mem ht ⟨ha0, ha1⟩ ⟨hb0, hb1⟩

theorem value_comm (t : TNorm ℝ) (a b : ℝ) : t.value a b = t.value b a := by
  cases t with
  | minimum => rw [value, value, Scalar.least_eq_min, Scalar.least_eq_min, min_comm]
  | product => exact mul_comm a b
  | lukasiewicz => rw [value, value, add_comm a b]
  | drastic =>
    simp only [value, beq_iff_eq]
    split_ifs with h1 h2
    · rw [h1, h2]
    · rfl
    · rfl
    · rfl
  | hamacher gamma =>
    rw [value_hamacher, value_hamacher, hamacherDenominator_eq, hamacherDenominator_eq,
      mul_comm a b, add_comm a b]

theorem value_assoc (ht : t.Proper) (ha : a ∈ unitInterval) (hb : b ∈ unitInterval)
    (hc : c ∈ unitInterval) : t.value (t.value a b) c = t.value a (t.value b c) := by
  cases t with
  | minimum => simp only [value, Scalar.least_eq_min, min_assoc]
  | product => exact mul_assoc a b c
  | lukasiewicz =>
    -- either way the conjunction of the three is what their sum exceeds 2 by
    have h1 : max 0 (max 0 (a + b - 1) + c - 1) = max 0 (a + b + c - 2) := by
      rcases max_cases 0 (a + b - 1) with ⟨h, h'⟩ | ⟨h, h'⟩
      · rw [h, max_eq_left (by linarith [hc.2]), max_eq_left (by linarith [hc.2])]
      · rw [h]; congr 1; ring
    have h2 : max 0 (a + max 0 (b + c - 1) - 1) = max 0 (a + b + c - 2) := by
      rcases max_cases 0 (b + c - 1) with ⟨h, h'⟩ | ⟨h, h'⟩
      · rw [h, max_eq_left (by linarith [ha.2]), max_eq_left (by linarith [ha.2])]
      · rw [h]; congr 1; ring
    simp only [value, Scalar.greatest_eq_max]
    rw [h1, h2]
  | drastic =>
    by_cases h1 : a = 1
    · simp [value, h1]
    · by_cases h2 : b = 1
      · simp [value, h1, h2]
      · by_cases h3 : c = 1
        · simp [value, h1, h2, h3]
        · simp [value, h1, h2, h3]
  | hamacher gamma =>
    rw [hamacher_nested ht ha hb, value_comm _ a, hamacher_nested ht hb hc, hamacherTriple_rotate]
    congr 1
    ring

/-- The neutral element. -/
theorem value_one (ht : t.Proper) (ha : a ∈ unitInterval) : t.value a 1 = a := by
  cases t with
  | minimum => rw [value, Scalar.least_eq_min, min_eq_left ha.2]
  | product => exact mul_one a
  | lukasiewicz =>
    rw [value, Scalar.greatest_eq_max, add_sub_cancel_right, max_eq_right ha.1]
  | drastic =>
    by_cases h : a = 1
    · simp [value, h]
    · simp [value, h]
  | hamacher gamma => simp [value_hamacher, hamacherDenominator_eq]

theorem value_right_comm (ht : t.Proper) (ha : a ∈ unitInterval) (hb : b ∈ unitInterval)
    (hc : c ∈ unitInterval) : t.value (t.value a b) c = t.value (t.value a c) b := by
  rw [value_assoc ht ha hb hc, value_comm t b c, ← value_assoc ht ha hc hb]

/-! ## 4. Conjunctions of lists -/

variable {degrees : List ℝ}

/-- A fold that starts at a degree stays among the degrees and does not fail. -/
theorem foldlM_apply (ht : t.Proper) (h : ∀ mu ∈ degrees, mu ∈ unitInterval)
    (ha : a ∈ unitInterval) :
    degrees.foldlM t.apply a = .ok (degrees.foldl t.value a) ∧
      degrees.foldl t.value a ∈ unitInterval := by
  induction degrees generalizing a with
  | nil => exact ⟨rfl, ha⟩
  | cons mu degrees ih =>
    have hmu : mu ∈ unitInterval := h mu List.mem_cons_self
    rw [List.foldlM_cons, apply_eq ht ha hmu, List.foldl_cons]
    exact ih (fun nu hnu => h nu (List.mem_cons_of_mem _ hnu)) (value_mem ht ha hmu)

theorem all_eq (ht : t.Proper) (h : ∀ mu ∈ degrees, mu ∈ unitInterval) :
    t.all degrees = .ok (degrees.foldl t.value 1) :=
  (foldlM_apply ht h unitInterval.one_mem).1

theorem foldl_value_mem (ht : t.Proper) (h : ∀ mu ∈ degrees, mu ∈ unitInterval) :
    degrees.foldl t.value 1 ∈ unitInterval :=
  (foldlM_apply ht h unitInterval.one_mem).2

/-- **A conjunction does not depend on the order of its degrees.** -/
theorem foldl_value_perm {others : List ℝ} (ht : t.Proper)
    (h : ∀ mu ∈ degrees, mu ∈ unitInterval) (hp : degrees.Perm others) :
    degrees.foldl t.value 1 = others.foldl t.value 1 :=
  foldl_perm (fun _ _ => value_mem ht) (fun _ _ _ => value_right_comm ht) hp 1
    unitInterval.one_mem h

end TNorm

namespace TConorm

/-! ## 5. The laws of conorms -/

variable {s : TConorm} {a b c : ℝ} {degrees : List ℝ}

theorem value_mem (s : TConorm) (ha : a ∈ unitInterval) (hb : b ∈ unitInterval) :
    s.value a b ∈ unitInterval := by
  obtain ⟨ha0, ha1⟩ := ha
  obtain ⟨hb0, hb1⟩ := hb
  cases s with
  | maximum =>
    rw [value, Scalar.greatest_eq_max]
    exact ⟨le_max_of_le_left ha0, max_le ha1 hb1⟩
  | probabilisticSum =>
    have h : 0 ≤ (1 - a) * (1 - b) := mul_nonneg (sub_nonneg.mpr ha1) (sub_nonneg.mpr hb1)
    have h' : a * b ≤ a := mul_le_of_le_one_right ha0 hb1
    exact ⟨by simp only [value]; linarith, by simp only [value]; linarith⟩
  | lukasiewicz =>
    rw [value, Scalar.least_eq_min]
    exact ⟨le_min zero_le_one (add_nonneg ha0 hb0), min_le_left _ _⟩
  | drastic =>
    simp only [value, beq_iff_eq]
    split_ifs
    · exact ⟨hb0, hb1⟩
    · exact ⟨ha0, ha1⟩
    · exact unitInterval.one_mem

theorem value_comm (s : TConorm) (a b : ℝ) : s.value a b = s.value b a := by
  cases s with
  | maximum => rw [value, value, Scalar.greatest_eq_max, Scalar.greatest_eq_max, max_comm]
  | probabilisticSum => rw [value, value, add_comm a b, mul_comm a b]
  | lukasiewicz => rw [value, value, add_comm a b]
  | drastic =>
    simp only [value, beq_iff_eq]
    split_ifs with h1 h2
    · rw [h1, h2]
    · rfl
    · rfl
    · rfl

theorem value_assoc (s : TConorm) (ha : a ∈ unitInterval) (hc : c ∈ unitInterval) (b : ℝ) :
    s.value (s.value a b) c = s.value a (s.value b c) := by
  cases s with
  | maximum => simp only [value, Scalar.greatest_eq_max, max_assoc]
  | probabilisticSum => simp only [value]; ring
  | lukasiewicz =>
    -- either way the disjunction of the three is their sum, cut off at 1
    have h1 : min 1 (min 1 (a + b) + c) = min 1 (a + b + c) := by
      rcases min_cases 1 (a + b) with ⟨h, h'⟩ | ⟨h, h'⟩
      · rw [h, min_eq_left (by linarith [hc.1]), min_eq_left (by linarith [hc.1])]
      · rw [h]
    have h2 : min 1 (a + min 1 (b + c)) = min 1 (a + b + c) := by
      rcases min_cases 1 (b + c) with ⟨h, h'⟩ | ⟨h, h'⟩
      · rw [h, min_eq_left (by linarith [ha.1]), min_eq_left (by linarith [ha.1])]
      · rw [h, add_assoc]
    simp only [value, Scalar.least_eq_min]
    rw [h1, h2]
  | drastic =>
    by_cases h1 : a = 0
    · simp [value, h1]
    · by_cases h2 : b = 0
      · simp [value, h1, h2]
      · by_cases h3 : c = 0
        · simp [value, h1, h2, h3]
        · simp [value, h1, h2, h3]

/-- The neutral element. -/
theorem value_zero (s : TConorm) (ha : a ∈ unitInterval) : s.value a 0 = a := by
  cases s with
  | maximum => rw [value, Scalar.greatest_eq_max, max_eq_left ha.1]
  | probabilisticSum => simp [value]
  | lukasiewicz => rw [value, Scalar.least_eq_min, add_zero, min_eq_right ha.2]
  | drastic =>
    by_cases h : a = 0
    · simp [value, h]
    · simp [value, h]

theorem value_right_comm (s : TConorm) (ha : a ∈ unitInterval) (hb : b ∈ unitInterval)
    (hc : c ∈ unitInterval) : s.value (s.value a b) c = s.value (s.value a c) b := by
  rw [value_assoc s ha hc, value_comm s b c, ← value_assoc s ha hb]

/-! ## 6. Disjunctions of lists -/

theorem foldl_value_mem (s : TConorm) (h : ∀ mu ∈ degrees, mu ∈ unitInterval)
    (ha : a ∈ unitInterval) : degrees.foldl s.value a ∈ unitInterval := by
  induction degrees generalizing a with
  | nil => exact ha
  | cons mu degrees ih =>
    exact ih (fun nu hnu => h nu (List.mem_cons_of_mem _ hnu))
      (value_mem s ha (h mu List.mem_cons_self))

theorem any_mem (s : TConorm) (h : ∀ mu ∈ degrees, mu ∈ unitInterval) :
    s.any degrees ∈ unitInterval :=
  foldl_value_mem s h unitInterval.zero_mem

/-- **A disjunction does not depend on the order of its degrees.** -/
theorem any_perm {others : List ℝ} (s : TConorm) (h : ∀ mu ∈ degrees, mu ∈ unitInterval)
    (hp : degrees.Perm others) : s.any degrees = s.any others :=
  foldl_perm (fun _ _ => value_mem s) (fun _ _ _ => value_right_comm s) hp 0
    unitInterval.zero_mem h

end TConorm
end Graded
