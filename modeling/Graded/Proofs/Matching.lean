/-
# Precision and recall

The similarity of a name to its best match is the greatest one, whatever the order of the
candidates, and 0 if there is none that is positive (`snd_bestMatch`).  Which candidate it is may
depend on the order, and nothing but the list of matches says so.

Precision and recall are then one figure, the mean of the best similarities, taken from either side:
each side looks from its own names to those of the other, so a similarity need not be symmetric for
the two to trade places when the lists do (`measure_symmetric`).

The parts of a result are computed apart, each with a search of its own for the best matches, and a
result without returned titles is written down as it is known to come out.  They fit together all
the same (`measure_coherent`).
-/
import Graded.Proofs.Exact
import Graded.Relevance

namespace Graded

/-! ## 1. Means -/

theorem plainMean_eq (xs : List ℝ) : plainMean xs = xs.sum / xs.length := by
  unfold plainMean
  split_ifs with h
  · simp [List.isEmpty_iff.mp h]
  · exact Scalar.mean_eq xs

/-- A mean that is multiplied by the number of values is their sum, also where there are none. -/
theorem plainMean_mul (xs : List ℝ) : xs.length * plainMean xs = xs.sum := by
  rw [plainMean_eq]
  cases xs with
  | nil => simp
  | cons x xs => exact mul_div_cancel₀ _ (by simp [Nat.cast_add_one_ne_zero])

theorem plainMean_perm {xs ys : List ℝ} (h : xs.Perm ys) : plainMean xs = plainMean ys := by
  rw [plainMean_eq, plainMean_eq, h.sum_eq, h.length_eq]

theorem harmonicMean_comm (a b : ℝ) : harmonicMean a b = harmonicMean b a := by
  unfold harmonicMean
  rw [add_comm a b, mul_right_comm]

theorem shortfall_eq (ds : List ℝ) : shortfall ds = ds.length - ds.sum := by
  rw [shortfall, Scalar.total_eq_sum]
  induction ds with
  | nil => simp
  | cons d ds ih =>
    rw [List.map_cons, List.sum_cons, ih, List.sum_cons, List.length_cons]
    push_cast
    ring

/-! ## 2. The best match -/

variable {β : Type} {similarity : β → β → ℝ} {returned expected returned' expected' : List β}

theorem snd_closer (similarity : β → β → ℝ) (name : β) (best : Option β × ℝ) (candidate : β) :
    (closer similarity name best candidate).2 = max best.2 (similarity name candidate) := by
  unfold closer
  rw [max_def_lt]
  dsimp only
  split_ifs <;> rfl

/-- **The best similarity is the greatest one**, and 0 if none is positive. -/
theorem snd_bestMatch (similarity : β → β → ℝ) (name : β) (candidates : List β) :
    (bestMatch similarity name candidates).2 =
      (candidates.map (similarity name)).foldl max 0 := by
  have h : ∀ best, (candidates.foldl (closer similarity name) best).2 =
      (candidates.map (similarity name)).foldl max best.2 := by
    induction candidates with
    | nil => exact fun _ => rfl
    | cons c candidates ih =>
      intro best
      rw [List.foldl_cons, ih, snd_closer, List.map_cons, List.foldl_cons]
  exact h (none, 0)

theorem length_bestSimilarities (similarity : β → β → ℝ) (names candidates : List β) :
    (bestSimilarities similarity names candidates).length = names.length :=
  List.length_map _

/-- Without candidates nothing is similar. -/
theorem sum_bestSimilarities_nil (similarity : β → β → ℝ) (names : List β) :
    (bestSimilarities similarity names []).sum = 0 := by
  simp [bestSimilarities]

/-- The order of the candidates does not matter, and that of the names is kept. -/
theorem bestSimilarities_perm {names names' candidates candidates' : List β}
    (hn : names.Perm names') (hc : candidates.Perm candidates') :
    (bestSimilarities similarity names candidates).Perm
      (bestSimilarities similarity names' candidates') := by
  have hbest : ∀ n, (bestMatch similarity n candidates).2 =
      (bestMatch similarity n candidates').2 := fun n => by
    rw [snd_bestMatch, snd_bestMatch, (hc.map _).foldl_eq]
  simp only [bestSimilarities, hbest]
  exact hn.map _

/-! ## 3. The parts of a result -/

theorem similarities_details (similarity : β → β → ℝ) (returned expected : List β) :
    (returned.map (detail similarity expected)).map (·.similarity) =
      bestSimilarities similarity returned expected :=
  List.map_map

theorem relevances_details (similarity : β → β → ℝ) (returned expected : List β) :
    (returned.map (detail similarity expected)).map (·.relevance) =
      (bestSimilarities similarity returned expected).map relevanceOf := by
  rw [bestSimilarities, List.map_map, List.map_map]
  rfl

/-- The precision is the mean of the best similarities of the returned titles. -/
theorem precision_measure (similarity : β → β → ℝ) (returned expected : List β) :
    (measure similarity returned expected).value.precision =
      plainMean (bestSimilarities similarity returned expected) := by
  cases expected with
  | nil => rw [plainMean_eq, sum_bestSimilarities_nil, zero_div]; rfl
  | cons x expected =>
    cases returned with
    | nil => rfl
    | cons y returned =>
      exact congrArg plainMean (similarities_details similarity (y :: returned) (x :: expected))

/-- The recall is the same figure, seen from the expected names. -/
theorem recalled_measure (similarity : β → β → ℝ) (returned expected : List β) :
    (measure similarity returned expected).value.recalled =
      plainMean (bestSimilarities similarity expected returned) := by
  cases expected with
  | nil => rfl
  | cons x expected =>
    cases returned with
    | nil => rw [plainMean_eq, sum_bestSimilarities_nil, zero_div]; rfl
    | cons y returned => rfl

theorem f1_measure (similarity : β → β → ℝ) (returned expected : List β) :
    (measure similarity returned expected).value.f1 =
      harmonicMean (measure similarity returned expected).value.precision
        (measure similarity returned expected).value.recalled := by
  have hzero : harmonicMean (0 : ℝ) 0 = 0 := if_pos (by simp)
  cases expected with
  | nil => exact hzero.symm
  | cons x expected =>
    cases returned with
    | nil => exact hzero.symm
    | cons y returned => rfl

/-- A comparison can be measured wherever names are expected. -/
theorem measurable_measure (similarity : β → β → ℝ) (returned expected : List β) :
    (measure similarity returned expected).value.measurable = !expected.isEmpty := by
  cases expected with
  | nil => rfl
  | cons x expected =>
    cases returned with
    | nil => rfl
    | cons y returned => rfl

/-- Where names are expected there is a detail for each title. -/
theorem details_measure (returned : List β) (h : expected ≠ []) :
    (measure similarity returned expected).value.details =
      returned.map (detail similarity expected) := by
  cases expected with
  | nil => exact absurd rfl h
  | cons x expected =>
    cases returned with
    | nil => rfl
    | cons y returned => rfl

/-- Where names are expected the matrix is that of the lists, also if nothing was returned. -/
theorem matrix_measure (returned : List β) (h : expected ≠ []) :
    (measure similarity returned expected).value.matrix =
      confusion similarity returned expected := by
  cases expected with
  | nil => exact absurd rfl h
  | cons x expected =>
    cases returned with
    | nil =>
      have hmissed : shortfall (bestSimilarities similarity (x :: expected) []) =
          (x :: expected).length := by
        rw [shortfall_eq, sum_bestSimilarities_nil, sub_zero, length_bestSimilarities]
      rw [confusion, hmissed]
      rfl
    | cons y returned => rfl

/-- Which summary is made depends on what is empty, and otherwise on the precision. -/
theorem summary_measure (similarity : β → β → ℝ) (returned expected : List β) :
    (measure similarity returned expected).value.summary =
      if expected.isEmpty then noneRelevant 0
      else if returned.isEmpty then noneRelevant 1
      else .fitting "results" "relevant" (measure similarity returned expected).value.precision
        true := by
  cases expected with
  | nil => rfl
  | cons x expected =>
    cases returned with
    | nil => rfl
    | cons y returned => rfl

/-- The proportion that a summary cites is the precision, whichever is made. -/
theorem support_measure (similarity : β → β → ℝ) (returned expected : List β) :
    (measure similarity returned expected).value.summary.support =
      (measure similarity returned expected).value.precision := by
  cases expected with
  | nil => rfl
  | cons x expected =>
    cases returned with
    | nil => rfl
    | cons y returned => rfl

/-! ## 4. Two lists trade places -/

theorem total_perm {xs ys : List ℝ} (h : xs.Perm ys) : Scalar.total xs = Scalar.total ys := by
  rw [Scalar.total_eq_sum, Scalar.total_eq_sum, h.sum_eq]

theorem shortfall_perm {xs ys : List ℝ} (h : xs.Perm ys) : shortfall xs = shortfall ys :=
  total_perm (h.map _)

/-- A confusion matrix does not depend on the order of either list. -/
theorem confusion_perm (hr : returned.Perm returned') (he : expected.Perm expected') :
    confusion similarity returned expected = confusion similarity returned' expected' := by
  have hbest : (bestSimilarities similarity returned expected).Perm
      (bestSimilarities similarity returned' expected') := bestSimilarities_perm hr he
  have hmissed : (bestSimilarities similarity expected returned).Perm
      (bestSimilarities similarity expected' returned') := bestSimilarities_perm he hr
  have hrelevances := hbest.map relevanceOf
  simp only [confusion, total_perm hrelevances, shortfall_perm hrelevances, shortfall_perm hmissed,
    hr.length_eq, he.length_eq]

/-- Two results say the same, up to the order of the similarities in their details. -/
structure Metrics.Alike (m m' : Metrics ℝ β) : Prop where
  precision : m'.precision = m.precision
  recalled : m'.recalled = m.recalled
  f1 : m'.f1 = m.f1
  matrix : m'.matrix = m.matrix
  summary : m'.summary = m.summary
  similarities : (m'.details.map (·.similarity)).Perm (m.details.map (·.similarity))

/-- **The order of the titles and of the names does not matter.** -/
theorem measure_perm (hr : returned.Perm returned') (he : expected.Perm expected') :
    (measure similarity returned expected).value.Alike
      (measure similarity returned' expected').value := by
  have hprecision : (measure similarity returned' expected').value.precision =
      (measure similarity returned expected).value.precision := by
    rw [precision_measure, precision_measure, plainMean_perm (bestSimilarities_perm hr he)]
  have hrecalled : (measure similarity returned' expected').value.recalled =
      (measure similarity returned expected).value.recalled := by
    rw [recalled_measure, recalled_measure, plainMean_perm (bestSimilarities_perm he hr)]
  refine ⟨hprecision, hrecalled, ?_, ?_, ?_, ?_⟩
  · rw [f1_measure, f1_measure, hprecision, hrecalled]
  · by_cases h : expected = []
    · subst h
      obtain rfl := he.nil_eq
      simp [measure, hr.length_eq]
    · have h' : expected' ≠ [] := fun h' => h (h' ▸ he).eq_nil
      rw [matrix_measure _ h, matrix_measure _ h', confusion_perm hr he]
  · rw [summary_measure, summary_measure, hprecision, hr.isEmpty_eq, he.isEmpty_eq]
  · by_cases h : expected = []
    · subst h
      obtain rfl := he.nil_eq
      exact List.Perm.refl _
    · have h' : expected' ≠ [] := fun h' => h (h' ▸ he).eq_nil
      rw [details_measure _ h, details_measure _ h', similarities_details, similarities_details]
      exact (bestSimilarities_perm hr he).symm

/-- **Precision and recall trade places with the lists**, and the order of the lists does not
matter, whatever the similarity is. -/
theorem measure_symmetric (similarity : β → β → ℝ) (returned expected : List β) :
    (measure similarity expected returned).value.precision =
        (measure similarity returned expected).value.recalled ∧
      (measure similarity expected returned).value.recalled =
        (measure similarity returned expected).value.precision ∧
      (measure similarity expected returned).value.f1 =
        (measure similarity returned expected).value.f1 ∧
      ∀ returned' expected', returned.Perm returned' → expected.Perm expected' →
        (measure similarity returned expected).value.Alike
          (measure similarity returned' expected').value := by
  have hp : (measure similarity expected returned).value.precision =
      (measure similarity returned expected).value.recalled := by
    rw [precision_measure, recalled_measure]
  have hr : (measure similarity expected returned).value.recalled =
      (measure similarity returned expected).value.precision := by
    rw [precision_measure, recalled_measure]
  refine ⟨hp, hr, ?_, fun _ _ => measure_perm⟩
  rw [f1_measure, hp, hr, harmonicMean_comm, ← f1_measure]

/-- A number resembles those above it by a half, and those below it not at all. -/
noncomputable def uphill (a b : ℕ) : ℝ := if a = b then 1 else if a < b then 0.5 else 0

theorem precision_uphill : (measure uphill [1, 2] [2]).value.precision = 0.75 := by
  rw [precision_measure, plainMean_eq]
  norm_num [bestSimilarities, snd_bestMatch, uphill]

theorem recalled_uphill : (measure uphill [1, 2] [2]).value.recalled = 1 := by
  rw [recalled_measure, plainMean_eq]
  norm_num [bestSimilarities, snd_bestMatch, uphill]

/-- One title of two has a match of its own and the other resembles it, so the figures differ. -/
theorem measure_symmetric_uphill :
    (measure uphill [1, 2] [2]).value.precision = 0.75 ∧
      (measure uphill [1, 2] [2]).value.recalled = 1 ∧
      (measure uphill [2] [1, 2]).value.precision = 1 ∧
      (measure uphill [2] [1, 2]).value.recalled = 0.75 ∧
      [1, 2].Perm [2, 1] ∧
      (measure uphill [1, 2] [2]).value.Alike (measure uphill [2, 1] [2]).value := by
  obtain ⟨hp, hr, -, hperm⟩ := measure_symmetric uphill [1, 2] [2]
  have hswap : [1, 2].Perm [2, 1] := .swap _ _ _
  exact ⟨precision_uphill, recalled_uphill, hp.trans recalled_uphill, hr.trans precision_uphill,
    hswap, hperm _ _ hswap (.refl _)⟩

/-! ## 5. The parts fit together -/

/-- **The parts of a result fit together** wherever names are expected, also if nothing was
returned.  The matrix is that of the lists, its degrees are those of the details, what it counts of
the titles comes to their number and what it misses of the names to the recall, the precision is the
mean similarity of the details, and the summary cites it. -/
theorem measure_coherent (similarity : β → β → ℝ) (returned : List β) (h : expected ≠ []) :
    let m := (measure similarity returned expected).value
    m.matrix = confusion similarity returned expected ∧
      m.matrix.truePositive = (m.details.map (·.relevance)).sum ∧
      m.matrix.truePositive + m.matrix.falsePositive = returned.length ∧
      m.matrix.falseNegative = expected.length * (1 - m.recalled) ∧
      m.precision = (if m.details.isEmpty then 0
        else (m.details.map (·.similarity)).sum / m.details.length) ∧
      m.summary.support = m.precision := by
  intro m
  have hmatrix : m.matrix = confusion similarity returned expected := matrix_measure returned h
  have hdetails : m.details = returned.map (detail similarity expected) :=
    details_measure returned h
  refine ⟨hmatrix, ?_, ?_, ?_, ?_, support_measure _ _ _⟩
  · rw [hmatrix, hdetails, relevances_details]
    exact Scalar.total_eq_sum _
  · rw [hmatrix]
    simp [confusion, shortfall_eq, Scalar.total_eq_sum, length_bestSimilarities]
  · rw [hmatrix, recalled_measure, mul_sub, mul_one,
      ← length_bestSimilarities similarity expected returned, plainMean_mul]
    exact shortfall_eq _
  · rw [hdetails, similarities_details, precision_measure]
    cases returned with
    | nil => rfl
    | cons y returned =>
      rw [plainMean_eq, length_bestSimilarities, List.length_map]
      rfl

/-- The parts of two results, of which the second has no titles. -/
theorem measure_coherent_uphill :
    [2] ≠ [] ∧
      (measure uphill [1, 2] [2]).value.matrix = confusion uphill [1, 2] [2] ∧
      (measure uphill [1, 2] [2]).value.matrix.falseNegative = 0 ∧
      (measure uphill [1, 2] [2]).value.summary.support = 0.75 ∧
      (measure uphill [] [2]).value.matrix = confusion uphill [] [2] ∧
      (measure uphill [] [2]).value.precision = 0 := by
  have h : [2] ≠ [] := by decide
  obtain ⟨hmatrix, -, -, hmissed, -, hsupport⟩ := measure_coherent uphill [1, 2] h
  obtain ⟨hmatrix', -, -, -, hmean, -⟩ := measure_coherent uphill [] h
  refine ⟨h, hmatrix, ?_, hsupport.trans precision_uphill, hmatrix', hmean⟩
  rw [hmissed, recalled_uphill, sub_self, mul_zero]

end Graded
