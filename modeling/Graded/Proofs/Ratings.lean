/-
# How a summary is rated

The overall quality of a summary adds up its truth and four more ratings.  Two of these say the same
thing the other way round, how much of the subject is covered and how much is not, so between them
they always add one share (`imprecisionOf_add_coveringOf`).

How well the mean degree agrees with the share that is covered never comes to nothing.  An element
that is covered has a degree of at least the threshold, so it exceeds its degree by no more than
what is left of 1; one that is not covered falls short of its degree by less than the threshold
(`covered_le_sum`, `sum_le_covered`).  Hence the rating is at least the threshold
(`le_appropriatenessOf`).

A rating therefore exists for every summary of some elements, and is never at the ends of what the
weights would allow (`rate_sound`).
-/
import Graded.Proofs.Truth
import Graded.Summary.Quality

namespace Graded

/-- A positive number has every real power. -/
theorem Scalar.realPower?_of_pos {base e : ℝ} (h : 0 < base) :
    realPower? base e = .ok (some (base ^ e)) := by
  have hpower : power base e = base ^ e := rfl
  have hzero : (base == 0) = false := decide_eq_false h.ne'
  have hinfinite : ∀ x : ℝ, isInfinite x = false := fun _ => rfl
  simp [realPower?, hpower, hzero, hinfinite, h.not_gt]

namespace Quality

variable {degrees : List ℝ} {limit truth : ℝ} {summarizers : ℤ}

/-! ## 1. What is covered -/

theorem covered_nil (limit : ℝ) : covered limit [] = 0 := rfl

theorem covered_cons (limit x : ℝ) (degrees : List ℝ) :
    (covered limit (x :: degrees) : ℝ) = covered limit degrees + if limit ≤ x then 1 else 0 := by
  simp [covered, List.countP_cons]

/-- Elements that are covered exceed their degrees by what is above the threshold, at most. -/
theorem covered_le_sum (h : AreDegrees degrees) (h1 : limit ≤ 1) :
    (covered limit degrees : ℝ) ≤ degrees.sum + (1 - limit) * degrees.length := by
  induction degrees with
  | nil => simp [covered_nil]
  | cons x degrees ih =>
    obtain ⟨hx, hrest⟩ := List.forall_mem_cons.mp h
    have hstep : (if limit ≤ x then (1 : ℝ) else 0) ≤ x + (1 - limit) := by
      split_ifs with hlimit
      · linarith
      · linarith [hx.1]
    rw [covered_cons, List.sum_cons, List.length_cons]
    push_cast
    linarith [ih hrest]

/-- Elements that are not covered fall short of their degrees by the threshold, at most. -/
theorem sum_le_covered (h : AreDegrees degrees) (h0 : 0 ≤ limit) :
    degrees.sum ≤ covered limit degrees + limit * degrees.length := by
  induction degrees with
  | nil => simp [covered_nil]
  | cons x degrees ih =>
    obtain ⟨hx, hrest⟩ := List.forall_mem_cons.mp h
    have hstep : x ≤ (if limit ≤ x then (1 : ℝ) else 0) + limit := by
      split_ifs with hlimit
      · linarith [hx.2]
      · linarith
    rw [covered_cons, List.sum_cons, List.length_cons]
    push_cast
    linarith [ih hrest]

/-! ## 2. Ratings of degrees -/

theorem coveringOf_eq (hne : degrees ≠ []) (limit : ℝ) :
    coveringOf degrees limit = covered limit degrees / degrees.length := by
  rw [coveringOf, if_neg (by simpa using hne)]

theorem coveringOf_mem (degrees : List ℝ) (limit : ℝ) :
    coveringOf degrees limit ∈ unitInterval := by
  have hle : (covered limit degrees : ℝ) ≤ degrees.length := Nat.cast_le.mpr List.countP_le_length
  unfold coveringOf
  split_ifs
  · exact unitInterval.zero_mem
  · exact ⟨div_nonneg (Nat.cast_nonneg _) (Nat.cast_nonneg _),
      div_le_one_of_le₀ hle (Nat.cast_nonneg _)⟩

/-- **What is covered and what is not** make up all elements. -/
theorem imprecisionOf_add_coveringOf (hne : degrees ≠ []) (limit : ℝ) :
    imprecisionOf degrees limit + coveringOf degrees limit = 1 := by
  rw [coveringOf_eq hne, imprecisionOf, if_neg (by simpa using hne), sub_add_cancel]

theorem appropriatenessOf_eq (hne : degrees ≠ []) (limit : ℝ) :
    appropriatenessOf degrees limit = 1 - |proportion degrees - coveringOf degrees limit| := by
  rw [appropriatenessOf, if_neg (by simpa using hne), proportion, if_neg (by simpa using hne)]
  rfl

/-- **The mean is never far from the share that is covered.** -/
theorem le_appropriatenessOf (h : AreDegrees degrees) (hne : degrees ≠ []) (h0 : 0 ≤ limit)
    (h1 : limit ≤ 1 - limit) : limit ≤ appropriatenessOf degrees limit := by
  have hlength : (0 : ℝ) < degrees.length := Nat.cast_pos.mpr (List.length_pos_iff.mpr hne)
  have habove := covered_le_sum h (h1.trans (sub_le_self 1 h0))
  have hbelow := sum_le_covered h h0
  have hdistance : |proportion degrees - coveringOf degrees limit| ≤ 1 - limit := by
    rw [proportion_eq, coveringOf_eq hne, ← sub_div, abs_div, abs_of_pos hlength,
      div_le_iff₀ hlength, abs_le]
    have hscaled := mul_le_mul_of_nonneg_right h1 hlength.le
    constructor
    · linarith
    · linarith
  rw [appropriatenessOf_eq hne]
  linarith

/-! ## 3. Brevity -/

/-- Brevity is a power of 2, in any arithmetic that has it. -/
theorem brevityOf_of_power {α : Type} [Scalar α] {summarizers : ℤ} {x : α}
    (hfinite : Scalar.isInfinite ((-(summarizers - 1) : ℤ) : α) = false)
    (hpower : Scalar.realPower? (2.0 : α) ((-(summarizers - 1) : ℤ) : α) = .ok (some x)) :
    brevityOf summarizers = .ok x := by
  simp only [brevityOf, hfinite, hpower, bind, Except.bind, Bool.false_eq_true, if_false]
  rfl

/-- **Brevity is a half for every summarizer after the first.** -/
theorem brevityOf_eq (summarizers : ℤ) :
    (brevityOf summarizers : Except (Fault ℝ) ℝ) = .ok (2 ^ (1 - summarizers)) := by
  have hpower : Scalar.realPower? (2.0 : ℝ) ((-(summarizers - 1) : ℤ) : ℝ) =
      .ok (some (2 ^ (1 - summarizers))) := by
    rw [Scalar.realPower?_of_pos (by norm_num), Real.rpow_intCast, Scalar.two_eq, neg_sub]
  exact brevityOf_of_power rfl hpower

theorem brevity_mem (hs : 1 ≤ summarizers) : (2 : ℝ) ^ (1 - summarizers) ∈ unitInterval :=
  ⟨by positivity, zpow_le_one_of_nonpos₀ one_le_two (by omega)⟩

/-! ## 4. All ratings -/

/-- **The overall quality** does not see how the elements are shared out. -/
theorem overallOf_eq {imprecision covering appropriateness brevity : ℝ}
    (h : imprecision + covering = 1) :
    overallOf truth imprecision covering appropriateness brevity =
      0.4 * truth + 0.15 * (1 + appropriateness + brevity) := by
  rw [overallOf, Scalar.total_eq_sum, ← h]
  simp only [List.sum_cons, List.sum_nil]
  ring

theorem rate_eq (hne : degrees ≠ []) (truth : ℝ) (summarizers : ℤ) :
    rate truth degrees summarizers = .ok
      ⟨truth, imprecisionOf degrees threshold, coveringOf degrees threshold,
        appropriatenessOf degrees threshold, 2 ^ (1 - summarizers),
        0.4 * truth +
          0.15 * (1 + appropriatenessOf degrees threshold + 2 ^ (1 - summarizers))⟩ := by
  rw [rate, brevityOf_eq, ← overallOf_eq (imprecisionOf_add_coveringOf hne threshold)]
  simp only [bind, Except.bind]
  rw [if_neg (by simpa using hne)]
  rfl

/-- What the ratings of a summary are, and within which bounds they stay. -/
structure Sound (q : Quality ℝ) (truth : ℝ) (degrees : List ℝ) (summarizers : ℤ) : Prop where
  truth_eq : q.truth = truth
  covering_eq : q.covering = covered threshold degrees / degrees.length
  appropriateness_eq : q.appropriateness = 1 - |proportion degrees - q.covering|
  brevity_eq : q.brevity = 2 ^ (1 - summarizers)
  complementary : q.imprecision + q.covering = 1
  overall_eq : q.overall = 0.4 * truth + 0.15 * (1 + q.appropriateness + q.brevity)
  appropriate : 0.01 ≤ q.appropriateness
  overall_gt : 0.15 < q.overall
  overall_le : q.overall ≤ 0.85
  /-- all of them are degrees -/
  within : AreDegrees
    [q.truth, q.imprecision, q.covering, q.appropriateness, q.brevity, q.overall]

/-- **A summary of some elements has a rating**, whose parts are degrees.  The overall quality lies
between 0.15 and 0.85. -/
theorem rate_sound (ht : truth ∈ unitInterval) (hne : degrees ≠ []) (h : AreDegrees degrees)
    (hs : 1 ≤ summarizers) :
    ∃ q, rate truth degrees summarizers = .ok q ∧ q.Sound truth degrees summarizers := by
  have hcovering := coveringOf_mem degrees threshold
  have hcomplementary := imprecisionOf_add_coveringOf hne threshold
  have happropriate : 0.01 ≤ appropriatenessOf degrees threshold := by
    refine le_appropriatenessOf h hne ?_ ?_
    · norm_num
    · norm_num
  have happropriate_le : appropriatenessOf degrees threshold ≤ 1 := by
    rw [appropriatenessOf_eq hne]
    linarith [abs_nonneg (proportion degrees - coveringOf degrees threshold)]
  have hbrevity := brevity_mem hs
  obtain ⟨ht0, ht1⟩ := ht
  have hgt : 0.15 < 0.4 * truth +
      0.15 * (1 + appropriatenessOf degrees threshold + 2 ^ (1 - summarizers)) := by
    linarith [hbrevity.1]
  have hle : 0.4 * truth +
      0.15 * (1 + appropriatenessOf degrees threshold + 2 ^ (1 - summarizers)) ≤ 0.85 := by
    linarith [hbrevity.2]
  refine ⟨_, rate_eq hne truth summarizers, rfl, coveringOf_eq hne _, appropriatenessOf_eq hne _,
    rfl, hcomplementary, rfl, happropriate, hgt, hle, ?_⟩
  simp only [AreDegrees, List.forall_mem_cons]
  refine ⟨⟨ht0, ht1⟩, ⟨?_, ?_⟩, hcovering, ⟨?_, happropriate_le⟩, hbrevity, ⟨?_, ?_⟩, by simp⟩
  · linarith [hcovering.2]
  · linarith [hcovering.1]
  · linarith
  · linarith
  · linarith

/-- Two elements that fall short of the threshold: none is covered, and their rating is still above
the lower bound. -/
theorem rate_sound_faint :
    (1 / 2 : ℝ) ∈ unitInterval ∧ AreDegrees [0.005, 0.005] ∧
      ∃ q, rate (1 / 2 : ℝ) [0.005, 0.005] 3 = .ok q ∧ q.covering = 0 ∧ q.imprecision = 1 ∧
        q.brevity = 1 / 4 ∧ 0.15 < q.overall := by
  have htruth : (1 / 2 : ℝ) ∈ unitInterval := by norm_num
  have hdegrees : AreDegrees [0.005, 0.005] := by norm_num [AreDegrees]
  have hsummarizers : (1 : ℤ) ≤ 3 := by decide
  obtain ⟨q, hq, hsound⟩ := rate_sound htruth (by simp) hdegrees hsummarizers
  have hcovering : q.covering = 0 := by
    rw [hsound.covering_eq]
    norm_num [covered, threshold]
  have himprecision : q.imprecision = 1 := by
    simpa [hcovering] using hsound.complementary
  refine ⟨htruth, hdegrees, q, hq, hcovering, himprecision, ?_, hsound.overall_gt⟩
  rw [hsound.brevity_eq]
  norm_num

end Quality
end Graded
