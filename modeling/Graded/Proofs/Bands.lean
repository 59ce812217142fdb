/-
# The bands of similarity and of confidence

The first rule base turns five bands of similarity into five bands of confidence, one by one
(`Band`).  Both families of fuzzy sets are piecewise linear, so everything is said in sixtieths,
where the sets of confidence have integral heights at the points 0, 0.01, …, 1:

* `Band.strength` is how strongly the rule of a band fires (`sixty_mul_similarity`);
* `Band.height` is the set of confidence that it implies (`sixty_mul_confidence`).

The two families are their own mirror images, similarity at 0.55 and confidence at 0.5
(`strength_mirror`, `height_mirror`), and some rule fires at every similarity (`exists_fires`).
-/
import Graded.Proofs.Sampling
import Graded.Proofs.Shape
import Graded.Vocabulary

namespace Graded

/-! ## 1. Shapes in sixtieths -/

theorem Scalar.sixty_mul_clamp (x : ℝ) : 60 * clamp x = max 0 (min 60 (60 * x)) := by
  rw [clamp_eq, mul_max_of_nonneg _ _ (by norm_num), mul_min_of_nonneg _ _ (by norm_num), mul_zero,
    mul_one]

namespace Shape

variable {a b c k l : ℝ}

/-- A falling shoulder in sixtieths, by its slope. -/
theorem sixty_mul_leftShoulder (h : a < b) (hk : k * (b - a) = 60) (x : ℝ) :
    60 * (leftShoulder a b).degree x = max 0 (min 60 (k * (b - x))) := by
  have hs : 60 * fall a b x = k * (b - x) := by
    rw [fall, ← hk, mul_assoc, mul_div_cancel₀ _ (sub_ne_zero.mpr h.ne')]
  rw [degree_leftShoulder h, Scalar.sixty_mul_clamp, hs]

/-- A rising shoulder in sixtieths, by its slope. -/
theorem sixty_mul_rightShoulder (h : a < b) (hk : k * (b - a) = 60) (x : ℝ) :
    60 * (rightShoulder a b).degree x = max 0 (min 60 (k * (x - a))) := by
  have hs : 60 * rise a b x = k * (x - a) := by
    rw [rise, ← hk, mul_assoc, mul_div_cancel₀ _ (sub_ne_zero.mpr h.ne')]
  rw [degree_rightShoulder h, Scalar.sixty_mul_clamp, hs]

/-- A triangle in sixtieths, by its slopes. -/
theorem sixty_mul_triangular (hab : a < b) (hbc : b < c) (hk : k * (b - a) = 60)
    (hl : l * (c - b) = 60) (x : ℝ) :
    60 * (triangular a b c).degree x =
      min (max 0 (min 60 (k * (x - a)))) (max 0 (min 60 (l * (c - x)))) := by
  rw [degree_triangular hab hbc, mul_min_of_nonneg _ _ (by norm_num),
    sixty_mul_rightShoulder hab hk, sixty_mul_leftShoulder hbc hl]

end Shape

/-! ## 2. Bands -/

/-- The five bands. -/
inductive Band where
  | no
  | weak
  | half
  | strong
  | full
  deriving DecidableEq, Repr

namespace Band

/-- The fuzzy set of similarity. -/
def similarity : Band → String
  | no => "no_match"
  | weak => "weak_match"
  | half => "partial_match"
  | strong => "strong_match"
  | full => "exact_match"

/-- The fuzzy set of confidence. -/
def confidence : Band → String
  | no => "very_low"
  | weak => "low"
  | half => "medium"
  | strong => "high"
  | full => "very_high"

/-- The mirror image of a band. -/
def mirror : Band → Band
  | no => full
  | weak => strong
  | half => half
  | strong => weak
  | full => no

/-! ## 3. Strengths -/

/-- A slope that has fallen from 60 to 0 at `q`. -/
noncomputable def fallTo (q s : ℝ) : ℝ := max 0 (min 60 (400 * (q - s)))

/-- A slope that rises from 0 to 60 from `p` on. -/
noncomputable def riseFrom (p s : ℝ) : ℝ := max 0 (min 60 (400 * (s - p)))

/-- How far a similarity is in a band, in sixtieths. -/
noncomputable def strength : Band → ℝ → ℝ
  | no, s => fallTo 0.3 s
  | weak, s => min (riseFrom 0.2 s) (fallTo 0.5 s)
  | half, s => min (riseFrom 0.4 s) (fallTo 0.7 s)
  | strong, s => min (riseFrom 0.6 s) (fallTo 0.9 s)
  | full, s => riseFrom 0.8 s

/-- **The strengths are the degrees of similarity.** -/
theorem sixty_mul_similarity (k : Band) (s : ℝ) :
    60 * (Vocabulary.similarity : Variable ℝ).degreeAt k.similarity s = k.strength s := by
  cases k with
  | no =>
    change 60 * (Shape.leftShoulder 0.15 0.3).degree s = _
    rw [Shape.sixty_mul_leftShoulder (k := 400) (by norm_num) (by norm_num)]
    rfl
  | weak =>
    change 60 * (Shape.triangular 0.2 0.35 0.5).degree s = _
    rw [Shape.sixty_mul_triangular (k := 400) (l := 400) (by norm_num) (by norm_num) (by norm_num)
      (by norm_num)]
    rfl
  | half =>
    change 60 * (Shape.triangular 0.4 0.55 0.7).degree s = _
    rw [Shape.sixty_mul_triangular (k := 400) (l := 400) (by norm_num) (by norm_num) (by norm_num)
      (by norm_num)]
    rfl
  | strong =>
    change 60 * (Shape.triangular 0.6 0.75 0.9).degree s = _
    rw [Shape.sixty_mul_triangular (k := 400) (l := 400) (by norm_num) (by norm_num) (by norm_num)
      (by norm_num)]
    rfl
  | full =>
    change 60 * (Shape.rightShoulder 0.8 0.95).degree s = _
    rw [Shape.sixty_mul_rightShoulder (k := 400) (by norm_num) (by norm_num)]
    rfl

theorem fallTo_anti (q : ℝ) : Antitone (fallTo q) := by
  intro s t hst
  exact max_le_max le_rfl (min_le_min le_rfl (by linarith))

theorem riseFrom_mono (p : ℝ) : Monotone (riseFrom p) := by
  intro s t hst
  exact max_le_max le_rfl (min_le_min le_rfl (by linarith))

theorem riseFrom_mirror (p s : ℝ) : riseFrom p (1.1 - s) = fallTo (1.1 - p) s := by
  rw [riseFrom, fallTo, sub_right_comm]

theorem fallTo_mirror (q s : ℝ) : fallTo q (1.1 - s) = riseFrom (1.1 - q) s := by
  rw [riseFrom, fallTo, sub_sub_eq_add_sub, sub_sub_eq_add_sub, add_comm]

theorem fallTo_nonneg (q s : ℝ) : 0 ≤ fallTo q s := le_max_left _ _

theorem riseFrom_nonneg (p s : ℝ) : 0 ≤ riseFrom p s := le_max_left _ _

theorem fallTo_eq_zero {q s : ℝ} (h : q ≤ s) : fallTo q s = 0 := by
  rw [fallTo, max_eq_left]
  exact (min_le_right _ _).trans (by linarith)

theorem riseFrom_eq_zero {p s : ℝ} (h : s ≤ p) : riseFrom p s = 0 := by
  rw [riseFrom, max_eq_left]
  exact (min_le_right _ _).trans (by linarith)

theorem fallTo_eq_sixty {q s : ℝ} (h : s + 0.15 ≤ q) : fallTo q s = 60 := by
  rw [fallTo, min_eq_left (by linarith), max_eq_right (by norm_num)]

theorem riseFrom_eq_sixty {p s : ℝ} (h : p + 0.15 ≤ s) : riseFrom p s = 60 := by
  rw [riseFrom, min_eq_left (by linarith), max_eq_right (by norm_num)]

theorem riseFrom_le_sixty (p s : ℝ) : riseFrom p s ≤ 60 :=
  max_le (by norm_num) (min_le_left _ _)

theorem fallTo_le_sixty (q s : ℝ) : fallTo q s ≤ 60 :=
  max_le (by norm_num) (min_le_left _ _)

/-- On its slope a falling slope is a line. -/
theorem fallTo_eq {q s : ℝ} (h : q ≤ s + 0.15) (h' : s ≤ q) : fallTo q s = 400 * (q - s) := by
  rw [fallTo, min_eq_right (by linarith), max_eq_right (by linarith)]

/-- On its slope a rising slope is a line. -/
theorem riseFrom_eq {p s : ℝ} (h : p ≤ s) (h' : s ≤ p + 0.15) :
    riseFrom p s = 400 * (s - p) := by
  rw [riseFrom, min_eq_right (by linarith), max_eq_right (by linarith)]

/-- Before its slopes begin a band is not there. -/
theorem strength_eq_zero_of_le {p q s : ℝ} (h : s ≤ p) : min (riseFrom p s) (fallTo q s) = 0 := by
  rw [riseFrom_eq_zero h, min_eq_left (fallTo_nonneg q s)]

/-- **The bands of similarity are their own mirror images.** -/
theorem strength_mirror (k : Band) (s : ℝ) : k.mirror.strength (1.1 - s) = k.strength s := by
  cases k <;> simp only [mirror, strength, riseFrom_mirror, fallTo_mirror, min_comm] <;> norm_num

/-- A slope counts before it is down. -/
theorem fallTo_pos_iff {q s : ℝ} : 0 < fallTo q s ↔ s < q := by
  simp [fallTo]

theorem riseFrom_pos_iff {p s : ℝ} : 0 < riseFrom p s ↔ p < s := by
  simp [riseFrom]

/-- **Some rule fires** at every similarity. -/
theorem exists_fires (s : ℝ) : ∃ k : Band, 0 < k.strength s := by
  rcases lt_or_ge s 0.3 with h | h
  · exact ⟨no, fallTo_pos_iff.mpr h⟩
  rcases lt_or_ge s 0.5 with h' | h'
  · exact ⟨weak, lt_min (riseFrom_pos_iff.mpr (by linarith)) (fallTo_pos_iff.mpr h')⟩
  rcases lt_or_ge s 0.7 with h | h
  · exact ⟨half, lt_min (riseFrom_pos_iff.mpr (by linarith)) (fallTo_pos_iff.mpr h)⟩
  rcases lt_or_ge s 0.9 with h' | h'
  · exact ⟨strong, lt_min (riseFrom_pos_iff.mpr (by linarith)) (fallTo_pos_iff.mpr h')⟩
  · exact ⟨full, riseFrom_pos_iff.mpr (by linarith)⟩

/-! ## 4. Heights -/

/-- A height, cut off at 0 and 60. -/
def level (h : ℤ) : ℤ := max 0 (min 60 h)

/-- The height of a set of confidence at a hundredth, in sixtieths; off the unit interval, 0. -/
def height : Band → ℤ → ℤ
  | no, i => if 0 ≤ i then level (100 - 4 * i) else 0
  | weak, i => min (level (4 * i - 40)) (level (160 - 4 * i))
  | half, i => min (level (3 * i - 90)) (level (210 - 3 * i))
  | strong, i => min (level (4 * i - 240)) (level (360 - 4 * i))
  | full, i => if i ≤ 100 then level (4 * i - 300) else 0

/-- **The heights are the degrees of confidence.** -/
theorem sixty_mul_confidence (k : Band) {i : ℤ} (h0 : 0 ≤ i) (h1 : i ≤ 100) :
    60 * (Vocabulary.confidence : Variable ℝ).degreeAt k.confidence ((i : ℝ) / 100) =
      k.height i := by
  cases k with
  | no =>
    change 60 * (Shape.leftShoulder 0.1 0.25).degree ((i : ℝ) / 100) = _
    have hs : (400 : ℝ) * (0.25 - i / 100) = 100 - 4 * i := by ring
    rw [Shape.sixty_mul_leftShoulder (k := 400) (by norm_num) (by norm_num), hs, height,
      if_pos h0, level]
    push_cast
    rfl
  | weak =>
    change 60 * (Shape.triangular 0.1 0.25 0.4).degree ((i : ℝ) / 100) = _
    have hs : (400 : ℝ) * (i / 100 - 0.1) = 4 * i - 40 := by ring
    have ht : (400 : ℝ) * (0.4 - i / 100) = 160 - 4 * i := by ring
    rw [Shape.sixty_mul_triangular (k := 400) (l := 400) (by norm_num) (by norm_num) (by norm_num)
      (by norm_num), hs, ht, height, level, level]
    push_cast
    rfl
  | half =>
    change 60 * (Shape.triangular 0.3 0.5 0.7).degree ((i : ℝ) / 100) = _
    have hs : (300 : ℝ) * (i / 100 - 0.3) = 3 * i - 90 := by ring
    have ht : (300 : ℝ) * (0.7 - i / 100) = 210 - 3 * i := by ring
    rw [Shape.sixty_mul_triangular (k := 300) (l := 300) (by norm_num) (by norm_num) (by norm_num)
      (by norm_num), hs, ht, height, level, level]
    push_cast
    rfl
  | strong =>
    change 60 * (Shape.triangular 0.6 0.75 0.9).degree ((i : ℝ) / 100) = _
    have hs : (400 : ℝ) * (i / 100 - 0.6) = 4 * i - 240 := by ring
    have ht : (400 : ℝ) * (0.9 - i / 100) = 360 - 4 * i := by ring
    rw [Shape.sixty_mul_triangular (k := 400) (l := 400) (by norm_num) (by norm_num) (by norm_num)
      (by norm_num), hs, ht, height, level, level]
    push_cast
    rfl
  | full =>
    change 60 * (Shape.rightShoulder 0.75 0.9).degree ((i : ℝ) / 100) = _
    have hs : (400 : ℝ) * (i / 100 - 0.75) = 4 * i - 300 := by ring
    rw [Shape.sixty_mul_rightShoulder (k := 400) (by norm_num) (by norm_num), hs, height,
      if_pos h1, level]
    push_cast
    rfl

theorem height_nonneg (k : Band) (i : ℤ) : 0 ≤ k.height i := by
  cases k <;> simp only [height, level]
  case no | full => split_ifs <;> omega
  case weak | half | strong => omega

/-- **The bands of confidence are their own mirror images.** -/
theorem height_mirror (k : Band) (i : ℤ) : k.mirror.height (100 - i) = k.height i := by
  cases k <;> simp only [mirror, height, level]
  case no | full => split_ifs <;> omega
  case weak | half | strong => omega

/-- Off the unit interval there is no confidence. -/
theorem height_outside (k : Band) {i : ℤ} (h : i < 0 ∨ 100 < i) : k.height i = 0 := by
  cases k <;> simp only [height, level]
  case no | full => split_ifs <;> omega
  case weak | half | strong => omega

/-- Every band is certain of some confidence. -/
theorem exists_height (k : Band) : ∃ i, 0 ≤ i ∧ i ≤ 100 ∧ k.height i = 60 := by
  cases k with
  | no => exact ⟨0, by decide⟩
  | weak => exact ⟨25, by decide⟩
  | half => exact ⟨50, by decide⟩
  | strong => exact ⟨75, by decide⟩
  | full => exact ⟨100, by decide⟩

end Band
end Graded
