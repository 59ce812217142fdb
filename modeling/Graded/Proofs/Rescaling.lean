/-
# Crisp values on another scale

Each of the five methods commutes with a change of scale: with the points moved to
`alpha * x + beta` and the degrees multiplied by a positive number, it answers with its former
answer, moved in the same way, and with the same notices (`Defuzzifier.apply_rescaled`).  What each
method decides on is kept by the change:

* the sum of the degrees is 0, or their peak is not positive, before as after, so no method falls
  back on the midpoint on one scale only;
* a place that halves the degrees still halves them (`Profile.HalvesAt.scaled`);
* the points of greatest degree are moved and stay the points of greatest degree
  (`Profile.pointsAt_rescaled`).

Where the points ascend, all crisp values lie between the first and the last of them, and the first,
the mean and the last of the maxima are in this order (`Defuzzifier.apply_lawful`).
-/
import Graded.Proofs.Defuzzification

namespace Graded

namespace Profile

variable {p : Profile ℝ} {xs mus : List ℝ} {alpha beta k : ℝ} {i : ℕ}

/-! ## 1. Scales -/

/-- A profile on another scale of points and another scale of degrees. -/
noncomputable def rescaled (p : Profile ℝ) (alpha beta k : ℝ) : Profile ℝ :=
  ⟨p.points.map (alpha * · + beta), p.degrees.map (k * ·)⟩

theorem sum_scaled_eq_zero_iff (hk : 0 < k) : (mus.map (k * ·)).sum = 0 ↔ mus.sum = 0 := by
  rw [Scalar.sum_scaled, mul_eq_zero, or_iff_right hk.ne']

/-! ## 2. Without support -/

theorem midpoint_rescaled :
    (p.rescaled alpha beta k).midpoint = p.midpoint.map (alpha * · + beta) := by
  simp only [midpoint, rescaled, List.head?_map, List.getLast?_map]
  cases p.points.head? with
  | none => rfl
  | some first =>
    cases p.points.getLast? with
    | none => rfl
    | some last =>
      simp only [Option.map_some, Except.map, Except.ok.injEq, Scalar.two_eq]
      ring

theorem unsupported_rescaled :
    (p.rescaled alpha beta k).unsupported = p.unsupported.map (Noted.map (alpha * · + beta)) := by
  rw [unsupported, midpoint_rescaled, unsupported]
  cases p.midpoint <;> rfl

/-- An answer is moved by moving its value. -/
theorem answer_map (f : ℝ → ℝ) (x : Except (Fault ℝ) ℝ) :
    answer (x.map f) = (answer x).map (Noted.map f) := by
  cases x <;> rfl

/-! ## 3. Centre and bisector -/

theorem moments_rescaled (hlen : mus.length = xs.length) :
    (List.zipWith (· * ·) (xs.map (alpha * · + beta)) (mus.map (k * ·))).sum =
      k * (alpha * (List.zipWith (· * ·) xs mus).sum + beta * mus.sum) := by
  induction xs generalizing mus with
  | nil =>
    rw [List.length_eq_zero_iff.mp hlen]
    simp
  | cons x xs ih =>
    obtain ⟨mu, mus, rfl⟩ := List.exists_cons_of_length_eq_add_one hlen
    simp only [List.map_cons, List.zipWith_cons_cons, List.sum_cons, ih (Nat.succ.inj hlen)]
    ring

theorem centroid_rescaled (hk : 0 < k) (hlen : p.degrees.length = p.points.length) :
    (p.rescaled alpha beta k).centroid = p.centroid.map (Noted.map (alpha * · + beta)) := by
  have hzero : (p.rescaled alpha beta k).degrees.sum = 0 ↔ p.degrees.sum = 0 :=
    sum_scaled_eq_zero_iff hk
  by_cases hs : p.degrees.sum = 0
  · rw [centroid, centroid, Scalar.total_eq_sum, Scalar.total_eq_sum,
      if_pos (beq_iff_eq.mpr hs), if_pos (beq_iff_eq.mpr (hzero.mpr hs)), unsupported_rescaled]
  · rw [centroid_eq hlen hs, centroid_eq (by simpa [rescaled] using hlen) (mt hzero.mp hs)]
    simp only [rescaled, moments_rescaled hlen, Scalar.sum_scaled, Except.map, Noted.map]
    rw [mul_div_mul_left _ _ hk.ne', add_div, mul_div_assoc, mul_div_cancel_right₀ _ hs]

/-- **A place that halves degrees halves them on any scale.** -/
theorem HalvesAt.scaled (h : HalvesAt mus i) (hk : 0 < k) : HalvesAt (mus.map (k * ·)) i := by
  constructor
  · rw [← List.map_take, Scalar.sum_scaled, Scalar.sum_scaled, mul_div_assoc]
    exact mul_lt_mul_of_pos_left h.before hk
  · rw [← List.map_take, Scalar.sum_scaled, Scalar.sum_scaled, mul_div_assoc]
    exact mul_le_mul_of_nonneg_left h.upTo hk.le

theorem bisector_rescaled (hk : 0 < k) (hmu : ∀ mu ∈ p.degrees, 0 ≤ mu)
    (hlen : p.degrees.length = p.points.length) :
    (p.rescaled alpha beta k).bisector = p.bisector.map (Noted.map (alpha * · + beta)) := by
  have hzero : (p.rescaled alpha beta k).degrees.sum = 0 ↔ p.degrees.sum = 0 :=
    sum_scaled_eq_zero_iff hk
  by_cases hs : p.degrees.sum = 0
  · rw [bisector, bisector, Scalar.total_eq_sum, Scalar.total_eq_sum,
      if_pos (beq_iff_eq.mpr hs), if_pos (beq_iff_eq.mpr (hzero.mpr hs)), unsupported_rescaled]
  · obtain ⟨i, hi⟩ := exists_halvesAt (lt_of_le_of_ne (List.sum_nonneg hmu) (Ne.symm hs))
    have hlt : i < p.points.length := hlen ▸ hi.lt_length
    have hx : p.points[i]? = some p.points[i] := List.getElem?_eq_getElem hlt
    have hmoved : ∀ mu ∈ (p.rescaled alpha beta k).degrees, 0 ≤ mu :=
      List.forall_mem_map.mpr fun mu hm => mul_nonneg hk.le (hmu mu hm)
    rw [bisector_eq hmu hi hx,
      bisector_eq hmoved (hi.scaled hk) (by rw [rescaled, List.getElem?_map, hx]; rfl)]
    rfl

/-! ## 4. The points of greatest degree -/

theorem peak?_scaled (hk : 0 < k) (mus : List ℝ) :
    Scalar.peak? (mus.map (k * ·)) = (Scalar.peak? mus).map (k * ·) := by
  rw [peak?_eq_max?, peak?_eq_max?]
  cases mus with
  | nil => rfl
  | cons mu mus =>
    rw [List.map_cons, List.max?_cons', List.max?_cons', Option.map_some]
    exact congrArg some (List.foldl_map_hom fun x y => (mul_max_of_nonneg x y hk.le).symm)

/-- **The points of a degree are moved**, and stay the points of that degree. -/
theorem pointsAt_rescaled (hk : 0 < k) (hlen : p.degrees.length = p.points.length) (mu : ℝ) :
    (p.rescaled alpha beta k).pointsAt (k * mu) =
      (p.pointsAt mu).map (List.map (alpha * · + beta)) := by
  rw [pointsAt_eq hlen, pointsAt_eq (by simpa [rescaled] using hlen), Except.map, rescaled,
    List.zip_map, List.filter_map, List.map_map, List.map_map]
  congr 2
  · refine List.filter_congr fun e _ => ?_
    simp [hk.ne']

/-- A choice that moves with the points that it chooses from answers with what is moved. -/
theorem atPeak_rescaled {choose : List ℝ → Except (Fault ℝ) ℝ} (hk : 0 < k)
    (hlen : p.degrees.length = p.points.length)
    (hc : ∀ xs, xs ≠ [] → choose (xs.map (alpha * · + beta)) =
      (choose xs).map (alpha * · + beta)) :
    (p.rescaled alpha beta k).atPeak choose =
      (p.atPeak choose).map (Noted.map (alpha * · + beta)) := by
  have hdegrees : Scalar.peak? (p.rescaled alpha beta k).degrees =
      (Scalar.peak? p.degrees).map (k * ·) := peak?_scaled hk p.degrees
  rw [atPeak, atPeak, hdegrees]
  cases hpeak : Scalar.peak? p.degrees with
  | none => rfl
  | some peak =>
    have hne : p.degrees ≠ [] := by
      rintro h0
      simp [h0, Scalar.peak?] at hpeak
    obtain ⟨_, hp, hmem, -⟩ := peak?_spec hne
    obtain rfl := Option.some.inj (hpeak.symm.trans hp)
    have hsign : k * peak ≤ 0 ↔ peak ≤ 0 := by
      rw [← not_lt, mul_pos_iff_of_pos_left hk, not_lt]
    obtain ⟨xs, hxs, hxne, -⟩ := pointsAt_spec hlen hmem
    simp only [Option.map_some, hsign, pointsAt_rescaled hk hlen, hxs]
    split_ifs
    · exact unsupported_rescaled
    · exact (congrArg answer (hc xs hxne)).trans (answer_map _ _)

theorem mean_moved (hne : xs ≠ []) :
    Scalar.mean (xs.map (alpha * · + beta)) = alpha * Scalar.mean xs + beta := by
  have hl : (xs.length : ℝ) ≠ 0 :=
    Nat.cast_ne_zero.mpr (List.length_pos_iff.mpr hne).ne'
  have hsum : (xs.map (alpha * · + beta)).sum = alpha * xs.sum + xs.length * beta := by
    simp [List.sum_map_add, Scalar.sum_scaled]
  rw [Scalar.mean_eq, Scalar.mean_eq, hsum, List.length_map, add_div, mul_div_assoc,
    mul_div_cancel_left₀ _ hl]

/-- One end of a list is moved with the list. -/
theorem pick_map (f : ℝ → ℝ) (x? : Option ℝ) : pick (x?.map f) = (pick x?).map f := by
  cases x? <;> rfl

end Profile

/-! ## 5. All methods -/

open Profile

variable {p : Profile ℝ} {alpha beta k : ℝ}

/-- **Every method commutes with a change of scale.** -/
theorem Defuzzifier.apply_rescaled (z : Defuzzifier) (hk : 0 < k)
    (hmu : ∀ mu ∈ p.degrees, 0 ≤ mu) (hlen : p.degrees.length = p.points.length) :
    z.apply (p.rescaled alpha beta k) =
      (z.apply p).map (Noted.map (alpha * · + beta)) := by
  cases z with
  | centroid => exact centroid_rescaled hk hlen
  | bisector => exact bisector_rescaled hk hmu hlen
  | meanOfMaximum => exact atPeak_rescaled hk hlen fun xs hne => congrArg _ (mean_moved hne)
  | largestOfMaximum =>
    refine atPeak_rescaled hk hlen fun xs _ => ?_
    rw [List.getLast?_map, pick_map]
  | smallestOfMaximum =>
    refine atPeak_rescaled hk hlen fun xs _ => ?_
    rw [List.head?_map, pick_map]

/-- The points of a profile ascend, each has a degree, and no degree is negative. -/
structure Profile.Ascending (p : Profile ℝ) : Prop where
  points : p.points.Pairwise (· ≤ ·)
  degrees : ∀ mu ∈ p.degrees, 0 ≤ mu
  length : p.degrees.length = p.points.length
  nonempty : p.points ≠ []

theorem Profile.Ascending.within (h : p.Ascending) :
    p.Within (p.points.head h.nonempty) (p.points.getLast h.nonempty) where
  points _ hx := ⟨h.points.rel_head hx, h.points.rel_getLast hx⟩
  degrees := h.degrees
  length := h.length
  nonempty := h.nonempty

/-- **The first, the mean and the last of the maxima** are in this order. -/
theorem Profile.Ascending.maxima (h : p.Ascending) :
    ∃ first mean last, p.smallestOfMaximum = .ok first ∧ p.meanOfMaximum = .ok mean ∧
      p.largestOfMaximum = .ok last ∧ first.value ≤ mean.value ∧ mean.value ≤ last.value := by
  rcases atPeak_cases h.length h.nonempty with hnone | ⟨xs, hne, hsub, hanswer⟩
  · obtain ⟨n, hn, -⟩ := answers_unsupported h.within
    exact ⟨n, n, n, by rw [smallestOfMaximum, hnone, hn], by rw [meanOfMaximum, hnone, hn],
      by rw [largestOfMaximum, hnone, hn], le_rfl, le_rfl⟩
  · have hxs : xs.Pairwise (· ≤ ·) := h.points.sublist hsub
    have hmean : Scalar.mean xs ∈ Set.Icc (xs.head hne) (xs.getLast hne) :=
      mean_mem hne fun x hx => ⟨hxs.rel_head hx, hxs.rel_getLast hx⟩
    refine ⟨.quiet (xs.head hne), .quiet (Scalar.mean xs), .quiet (xs.getLast hne), ?_, ?_, ?_,
      hmean.1, hmean.2⟩
    · rw [smallestOfMaximum, hanswer, List.head?_eq_some_head hne]
      rfl
    · rw [meanOfMaximum, hanswer]
      rfl
    · rw [largestOfMaximum, hanswer, List.getLast?_eq_some_getLast hne]
      rfl

/-- **Crisp values of ascending points.**  Every method answers with a value between the first and
the last point; the first of the maxima is not above their mean, and that not above the last of
them; and every method commutes with every change of scale, also where it falls back on the
midpoint. -/
theorem Defuzzifier.apply_lawful (h : p.Ascending) :
    (∀ z : Defuzzifier, ∃ n, z.apply p = .ok n ∧
      n.value ∈ Set.Icc (p.points.head h.nonempty) (p.points.getLast h.nonempty)) ∧
    (∃ first mean last, smallestOfMaximum.apply p = .ok first ∧
      meanOfMaximum.apply p = .ok mean ∧ largestOfMaximum.apply p = .ok last ∧
      first.value ≤ mean.value ∧ mean.value ≤ last.value) ∧
    ∀ (z : Defuzzifier) (alpha beta k : ℝ), 0 < k →
      z.apply (p.rescaled alpha beta k) =
        (z.apply p).map (Noted.map fun x => alpha * x + beta) := by
  refine ⟨?_, h.maxima, ?_⟩
  · intro z
    exact z.apply_within h.within
  · intro z alpha beta k hk
    exact z.apply_rescaled hk h.degrees h.length

/-- Three temperatures with a plateau of degrees, read in Celsius and in Fahrenheit, with half of
the degrees. -/
theorem Defuzzifier.apply_lawful_fahrenheit :
    ∃ p : Profile ℝ, p = ⟨[0, 50, 100], [0.2, 0.8, 0.8]⟩ ∧ p.Ascending ∧ (0 : ℝ) < 0.5 ∧
      (∃ n, centroid.apply p = .ok n ∧ n.value ∈ Set.Icc 0 100) ∧
      (∃ first mean last, smallestOfMaximum.apply p = .ok first ∧
        meanOfMaximum.apply p = .ok mean ∧ largestOfMaximum.apply p = .ok last ∧
        first.value ≤ mean.value ∧ mean.value ≤ last.value) ∧
      bisector.apply (p.rescaled 1.8 32 0.5) =
        (bisector.apply p).map (Noted.map fun x => 1.8 * x + 32) := by
  set p : Profile ℝ := ⟨[0, 50, 100], [0.2, 0.8, 0.8]⟩ with hp
  have h : p.Ascending :=
    { points := by norm_num [hp]
      degrees := by norm_num [hp]
      length := rfl
      nonempty := List.cons_ne_nil _ _ }
  have hk : (0 : ℝ) < 0.5 := by norm_num
  obtain ⟨hwithin, hmaxima, hrescaled⟩ := apply_lawful h
  exact ⟨p, hp, h, hk, hwithin .centroid, hmaxima, hrescaled .bisector 1.8 32 0.5 hk⟩

end Graded
