/-
# Crisp values lie among the points

Each of the five methods turns a profile into a value between any two bounds of its points
(`Defuzzifier.apply_within`), and none of them fails, as long as there is a point, each point has a
degree, and no degree is negative (`Profile.Within`).  The reasons differ:

* the centre of gravity and the mean of the maxima are means of points, the first one weighted by
  degrees that do not add up to 0 (`moments_within`);
* the bisector and the ends of the maxima are points.  That the bisector finds one is because some
  place halves the degrees (`exists_halvesAt`);
* without support each method answers with the middle between the first and the last point.
-/
import Graded.Proofs.Bisector

namespace Graded

namespace Profile

variable {p : Profile ℝ} {lo hi : ℝ} {xs mus : List ℝ}

/-! ## 1. Profiles between two bounds -/

/-- The points lie between two bounds, each has a degree, and no degree is negative. -/
structure Within (p : Profile ℝ) (lo hi : ℝ) : Prop where
  points : ∀ x ∈ p.points, x ∈ Set.Icc lo hi
  degrees : ∀ mu ∈ p.degrees, 0 ≤ mu
  length : p.degrees.length = p.points.length
  nonempty : p.points ≠ []

/-- There is a result, and its value lies between two bounds. -/
def Answers (lo hi : ℝ) (x : Except (Fault ℝ) (Noted ℝ)) : Prop :=
  ∃ n, x = .ok n ∧ n.value ∈ Set.Icc lo hi

theorem answers_answer {x : ℝ} (h : x ∈ Set.Icc lo hi) : Answers lo hi (answer (.ok x)) :=
  ⟨_, rfl, h⟩

/-- The middle between two points lies between the bounds as well. -/
theorem answers_unsupported (h : p.Within lo hi) : Answers lo hi p.unsupported := by
  have hf := List.head?_eq_some_head h.nonempty
  have hl := List.getLast?_eq_some_getLast h.nonempty
  have hfirst := h.points _ (List.head_mem h.nonempty)
  have hlast := h.points _ (List.getLast_mem h.nonempty)
  set first := p.points.head h.nonempty
  set last := p.points.getLast h.nonempty
  refine ⟨⟨(first + last) / 2, [.noSupport]⟩, ?_, ?_, ?_⟩
  · simp only [unsupported, midpoint, hf, hl, Except.map]
    norm_num
  · show lo ≤ (first + last) / 2
    linarith [hfirst.1, hlast.1]
  · show (first + last) / 2 ≤ hi
    linarith [hfirst.2, hlast.2]

/-! ## 2. Weighted points -/

/-- **Points weighted by degrees** are bounded by what the bounds would give with the same
weights. -/
theorem moments_within (hx : ∀ x ∈ xs, x ∈ Set.Icc lo hi) (hmu : ∀ mu ∈ mus, 0 ≤ mu)
    (hlen : mus.length = xs.length) :
    lo * mus.sum ≤ (List.zipWith (· * ·) xs mus).sum ∧
      (List.zipWith (· * ·) xs mus).sum ≤ hi * mus.sum := by
  induction xs generalizing mus with
  | nil =>
    rw [List.length_eq_zero_iff.mp hlen]
    simp
  | cons x xs ih =>
    cases mus with
    | nil => simp at hlen
    | cons mu mus =>
      obtain ⟨h1, h2⟩ := ih (fun y hy => hx y (List.mem_cons_of_mem _ hy))
        (fun nu hnu => hmu nu (List.mem_cons_of_mem _ hnu)) (Nat.succ.inj hlen)
      have hm : 0 ≤ mu := hmu mu List.mem_cons_self
      have hlo : lo * mu ≤ x * mu := mul_le_mul_of_nonneg_right (hx x List.mem_cons_self).1 hm
      have hhi : x * mu ≤ hi * mu := mul_le_mul_of_nonneg_right (hx x List.mem_cons_self).2 hm
      simp only [List.zipWith_cons_cons, List.sum_cons, mul_add]
      constructor
      · linarith
      · linarith

/-- The centre of gravity where there is something to weigh. -/
theorem centroid_eq (hlen : p.degrees.length = p.points.length) (hs : p.degrees.sum ≠ 0) :
    p.centroid =
      .ok ⟨(List.zipWith (· * ·) p.points p.degrees).sum / p.degrees.sum, []⟩ := by
  simp [centroid, Scalar.total_eq_sum, hs, Row.combine_of_length_eq hlen.symm, answer, Except.map,
    Noted.quiet]

theorem centroid_within (h : p.Within lo hi) : Answers lo hi p.centroid := by
  by_cases hs : p.degrees.sum = 0
  · rw [centroid, Scalar.total_eq_sum, if_pos (beq_iff_eq.mpr hs)]
    exact answers_unsupported h
  · have hpos : 0 < p.degrees.sum :=
      lt_of_le_of_ne (List.sum_nonneg h.degrees) (Ne.symm hs)
    obtain ⟨h1, h2⟩ := moments_within h.points h.degrees h.length
    exact ⟨_, centroid_eq h.length hs, (le_div_iff₀ hpos).mpr h1, (div_le_iff₀ hpos).mpr h2⟩

/-! ## 3. The bisector -/

theorem bisector_within (h : p.Within lo hi) : Answers lo hi p.bisector := by
  by_cases hs : p.degrees.sum = 0
  · rw [bisector, Scalar.total_eq_sum, if_pos (beq_iff_eq.mpr hs)]
    exact answers_unsupported h
  · have hpos : 0 < p.degrees.sum := lt_of_le_of_ne (List.sum_nonneg h.degrees) (Ne.symm hs)
    obtain ⟨i, hi⟩ := exists_halvesAt hpos
    have hlt : i < p.points.length := h.length ▸ hi.lt_length
    exact ⟨_, bisector_eq h.degrees hi (List.getElem?_eq_getElem hlt),
      h.points _ (List.getElem_mem hlt)⟩

/-! ## 4. The points of greatest degree -/

theorem peak?_eq_max? (mus : List ℝ) : Scalar.peak? mus = mus.max? := by
  cases mus with
  | nil => rfl
  | cons x l =>
    simp only [Scalar.peak?, List.max?_cons', Scalar.undefined_eq_false]
    congr 2
    funext m y
    simp [max_comm m y, max_def]

/-- The greatest of a list is in it and bounds it. -/
theorem peak?_spec (h : mus ≠ []) :
    ∃ peak, Scalar.peak? mus = some peak ∧ peak ∈ mus ∧ ∀ mu ∈ mus, mu ≤ peak := by
  rw [peak?_eq_max?]
  obtain ⟨peak, hp⟩ := Option.isSome_iff_exists.mp (List.isSome_max?_iff.mpr h)
  exact ⟨peak, hp, List.max?_eq_some_iff.mp hp⟩

/-- The points of a degree, in their order. -/
theorem pointsAt_eq (hlen : p.degrees.length = p.points.length) (mu : ℝ) :
    p.pointsAt mu = .ok (((p.points.zip p.degrees).filter fun e => e.2 == mu).map (·.1)) := by
  rw [pointsAt, if_pos hlen.symm]
  congr 1
  induction p.points.zip p.degrees with
  | nil => rfl
  | cons e l ih =>
    rw [List.filterMap_cons, ih, List.filter_cons]
    cases h : e.2 == mu <;> simp [h]

/-- A degree that occurs is the degree of some of the points. -/
theorem pointsAt_spec (hlen : p.degrees.length = p.points.length) {mu : ℝ} (hmu : mu ∈ p.degrees) :
    ∃ xs, p.pointsAt mu = .ok xs ∧ xs ≠ [] ∧ xs.Sublist p.points := by
  refine ⟨_, pointsAt_eq hlen mu, ?_, ?_⟩
  · obtain ⟨i, hi, rfl⟩ := List.getElem_of_mem hmu
    have hi' : i < p.points.length := hlen ▸ hi
    have hpair : (p.points[i], p.degrees[i]) ∈ p.points.zip p.degrees :=
      List.mem_iff_getElem.mpr ⟨i, by simp [hi, hi'], List.getElem_zip⟩
    exact List.ne_nil_of_mem
      (List.mem_map_of_mem (List.mem_filter.mpr ⟨hpair, beq_self_eq_true _⟩))
  · have hpoints : (p.points.zip p.degrees).map (·.1) = p.points := List.map_fst_zip hlen.ge
    conv => rhs; rw [← hpoints]
    exact List.filter_sublist.map _

/-- **What the methods of the maxima do**: either none of them finds support, or all of them choose
from the same points. -/
theorem atPeak_cases (hlen : p.degrees.length = p.points.length) (hne : p.points ≠ []) :
    (∀ choose, p.atPeak choose = p.unsupported) ∨
      ∃ xs, xs ≠ [] ∧ xs.Sublist p.points ∧ ∀ choose, p.atPeak choose = answer (choose xs) := by
  have hdegrees : p.degrees ≠ [] := by
    intro h0
    rw [h0] at hlen
    exact hne (List.length_eq_zero_iff.mp hlen.symm)
  obtain ⟨peak, hp, hmem, -⟩ := peak?_spec hdegrees
  by_cases h0 : peak ≤ 0
  · exact .inl fun choose => by simp only [atPeak, hp, if_pos h0]
  · obtain ⟨xs, hxs, hxne, hsub⟩ := pointsAt_spec hlen hmem
    refine .inr ⟨xs, hxne, hsub, fun choose => ?_⟩
    simp only [atPeak, hp, if_neg h0, hxs]
    rfl

/-- What is chosen from points among the bounds has to lie between them. -/
theorem atPeak_within {choose : List ℝ → Except (Fault ℝ) ℝ}
    (hc : ∀ xs, xs ≠ [] → (∀ x ∈ xs, x ∈ Set.Icc lo hi) →
      ∃ y, choose xs = .ok y ∧ y ∈ Set.Icc lo hi)
    (h : p.Within lo hi) : Answers lo hi (p.atPeak choose) := by
  rcases atPeak_cases h.length h.nonempty with hnone | ⟨xs, hne, hsub, hanswer⟩
  · rw [hnone]
    exact answers_unsupported h
  · obtain ⟨y, hy, hb⟩ := hc xs hne fun x hx => h.points x (hsub.mem hx)
    rw [hanswer, hy]
    exact answers_answer hb

/-- The mean of numbers lies between their bounds. -/
theorem mean_mem (hne : xs ≠ []) (hx : ∀ x ∈ xs, x ∈ Set.Icc lo hi) :
    Scalar.mean xs ∈ Set.Icc lo hi := by
  have hl : (0 : ℝ) < xs.length := Nat.cast_pos.mpr (List.length_pos_iff.mpr hne)
  rw [Scalar.mean_eq]
  constructor
  · rw [le_div_iff₀ hl, mul_comm, ← nsmul_eq_mul]
    exact List.card_nsmul_le_sum xs lo fun x hm => (hx x hm).1
  · rw [div_le_iff₀ hl, mul_comm, ← nsmul_eq_mul]
    exact List.sum_le_card_nsmul xs hi fun x hm => (hx x hm).2

theorem meanOfMaximum_within (h : p.Within lo hi) : Answers lo hi p.meanOfMaximum :=
  atPeak_within (fun _ hne hx => ⟨_, rfl, mean_mem hne hx⟩) h

theorem largestOfMaximum_within (h : p.Within lo hi) : Answers lo hi p.largestOfMaximum := by
  refine atPeak_within ?_ h
  intro xs hne hx
  rw [List.getLast?_eq_some_getLast hne]
  exact ⟨_, rfl, hx _ (List.getLast_mem hne)⟩

theorem smallestOfMaximum_within (h : p.Within lo hi) : Answers lo hi p.smallestOfMaximum := by
  refine atPeak_within ?_ h
  intro xs hne hx
  rw [List.head?_eq_some_head hne]
  exact ⟨_, rfl, hx _ (List.head_mem hne)⟩

end Profile

/-! ## 5. All methods -/

/-- **No method fails or leaves the bounds.** -/
theorem Defuzzifier.apply_within {p : Profile ℝ} {lo hi : ℝ} (z : Defuzzifier)
    (h : p.Within lo hi) : Profile.Answers lo hi (z.apply p) := by
  cases z with
  | centroid => exact Profile.centroid_within h
  | bisector => exact Profile.bisector_within h
  | meanOfMaximum => exact Profile.meanOfMaximum_within h
  | largestOfMaximum => exact Profile.largestOfMaximum_within h
  | smallestOfMaximum => exact Profile.smallestOfMaximum_within h

end Graded
