/-
# Relevance grows with similarity

The relevance of a similarity is a mean of the centres of five bands, weighted by how far the
similarity is in each of them.  The weights need not add up to 1, and while some of them rise others
fall.  Still the mean never falls (`relevanceOf_mono`).  Two things are enough for this:

* of two bands the later one weighs ever more in proportion to the earlier one, as it is with all
  families that cover the line (`Covers.pairwise_outweighed`);
* the centres are in the order of the bands.

Then what is gained between any two bands is gained by the one with the greater centre
(`sum_mul_sum_le`).  There are no gaps between the bands, so there always is a mean, and it lies
between the first and the last centre (`relevanceOf_mem`).

The ends are 0.1 and 0.9, not 0 and 1.  So a confusion matrix never counts a title as wholly right
or wholly wrong, whatever the similarity is (`confusion_confined`).
-/
import Graded.Proofs.Defuzzification
import Graded.Proofs.Matching
import Graded.Proofs.Words

namespace Graded

/-! ## 1. Weighted means -/

/-- A weighted mean, by one formula.  Without any weight that is a division by 0, and 0. -/
theorem weightedMean_eq (pairs : List (ℝ × ℝ)) :
    weightedMean pairs = (pairs.map fun p => p.1 * p.2).sum / (pairs.map (·.1)).sum := by
  unfold weightedMean
  simp only [Scalar.total_eq_sum, beq_iff_eq]
  split_ifs with h
  · rw [h, div_zero]
  · rw [div_eq_mul_inv, ← List.sum_map_mul_right]
    exact congrArg List.sum (List.map_congr_left fun p _ => by ring)

/-- A sum does not change when terms that are 0 are left out. -/
theorem sum_map_filter {β : Type} {f : β → ℝ} {p : β → Bool} {l : List β}
    (h : ∀ x ∈ l, p x = false → f x = 0) : ((l.filter p).map f).sum = (l.map f).sum := by
  induction l with
  | nil => rfl
  | cons x l ih =>
    have hrest := ih fun y hy => h y (List.mem_cons_of_mem _ hy)
    cases hx : p x with
    | true =>
      rw [List.filter_cons_of_pos hx, List.map_cons, List.sum_cons, hrest, List.map_cons,
        List.sum_cons]
    | false =>
      rw [List.filter_cons_of_neg (by simp [hx]), hrest, List.map_cons, List.sum_cons,
        h x List.mem_cons_self hx, zero_add]

/-- The mean of centres weighted by degrees.  Names without a degree may be counted or not. -/
theorem weightedCentre_eq {memberships : Grading ℝ} (centres : Grading ℝ)
    (h : ∀ m ∈ memberships, 0 ≤ m.2) :
    weightedCentre memberships centres =
      (memberships.map fun m => m.2 * centres.degreeOf m.1).sum / (memberships.map (·.2)).sum := by
  have hzero : ∀ m ∈ memberships, decide (0 < m.2) = false → m.2 = 0 := fun m hm hpos =>
    le_antisymm (by simpa using hpos) (h m hm)
  have hmoments := sum_map_filter (f := fun m : String × ℝ => m.2 * centres.degreeOf m.1)
    fun m hm hpos => by rw [hzero m hm hpos, zero_mul]
  have hweights := sum_map_filter (f := fun m : String × ℝ => m.2) hzero
  rw [← hmoments, ← hweights]
  unfold weightedCentre
  dsimp only
  split_ifs with hnil
  · rw [List.isEmpty_iff.mp hnil]
    simp
  · rw [weightedMean_eq, List.map_map, List.map_map]
    rfl

/-! ## 2. Weights that move -/

/-- **Weights that move to later places raise the mean** of values that are in order.  Here the
weights are `u` first and `v` then, and between any two places the later one gains. -/
theorem sum_mul_sum_le {β : Type} {u v c : β → ℝ} {l : List β}
    (h : l.Pairwise fun p q => c p ≤ c q ∧ u q * v p ≤ u p * v q) :
    (l.map fun p => u p * c p).sum * (l.map v).sum ≤
      (l.map fun p => v p * c p).sum * (l.map u).sum := by
  induction l with
  | nil => simp
  | cons p l ih =>
    obtain ⟨hp, hl⟩ := List.pairwise_cons.mp h
    have hrest := ih hl
    -- what the first place and all later ones have to do with each other
    have hcross : c p * u p * (l.map v).sum + v p * (l.map fun q => u q * c q).sum ≤
        c p * v p * (l.map u).sum + u p * (l.map fun q => v q * c q).sum := by
      simp only [← List.sum_map_mul_left, ← List.sum_map_add]
      refine List.sum_le_sum fun q hq => ?_
      obtain ⟨hc, hw⟩ := hp q hq
      have hgain : 0 ≤ (c q - c p) * (u p * v q - u q * v p) :=
        mul_nonneg (sub_nonneg.mpr hc) (sub_nonneg.mpr hw)
      linarith
    simp only [List.map_cons, List.sum_cons]
    linarith

/-! ## 3. Families that cover the line -/

/-- The mean of values that stand for named shapes, weighted by the degrees of a number in them. -/
noncomputable def meanAt (shapes : Keyed (Shape ℝ)) (centre : String → ℝ) (x : ℝ) : ℝ :=
  (shapes.map fun s => s.2.degree x * centre s.1).sum / (shapes.map fun s => s.2.degree x).sum

section

variable {shapes : Keyed (Shape ℝ)} {centre : String → ℝ} {h lo hi : ℝ}

theorem degrees_nonneg (shapes : Keyed (Shape ℝ)) (x : ℝ) :
    ∀ d ∈ shapes.map (fun s => s.2.degree x), 0 ≤ d :=
  List.forall_mem_map.mpr fun s _ => s.2.degree_nonneg x

/-- Where there is no gap there is something to weigh. -/
theorem sum_degrees_pos (hc : Covers h (shapes.map (·.2))) (h0 : 0 < h) (h1 : h ≤ 1) (x : ℝ) :
    0 < (shapes.map fun s => s.2.degree x).sum := by
  obtain ⟨s, hs, hheight⟩ := hc.exists_height h1 x
  obtain ⟨e, he, rfl⟩ := List.mem_map.mp hs
  exact (h0.trans_le hheight).trans_le
    (List.single_le_sum (degrees_nonneg shapes x) _ (List.mem_map_of_mem he))

/-- **The mean over shapes that cover the line never falls**, if their values are in order. -/
theorem meanAt_mono (hc : Covers h (shapes.map (·.2))) (h0 : 0 < h) (h1 : h ≤ 1)
    (hcentre : shapes.Pairwise fun s t => centre s.1 ≤ centre t.1) :
    Monotone (meanAt shapes centre) := by
  intro x y hxy
  have hweights : shapes.Pairwise fun s t => Outweighed s.2.degree t.2.degree := by
    have hpairwise := hc.pairwise_outweighed
    rwa [List.pairwise_map] at hpairwise
  rw [meanAt, meanAt, div_le_div_iff₀ (sum_degrees_pos hc h0 h1 x) (sum_degrees_pos hc h0 h1 y)]
  exact sum_mul_sum_le ((hcentre.and hweights).imp fun hst => ⟨hst.1, hst.2 x y hxy⟩)

/-- It lies between the bounds of the values. -/
theorem meanAt_mem (hc : Covers h (shapes.map (·.2))) (h0 : 0 < h) (h1 : h ≤ 1)
    (hcentre : ∀ s ∈ shapes, centre s.1 ∈ Set.Icc lo hi) (x : ℝ) :
    meanAt shapes centre x ∈ Set.Icc lo hi := by
  have hpos := sum_degrees_pos hc h0 h1 x
  have hvalues : ∀ c ∈ shapes.map (fun s => centre s.1), c ∈ Set.Icc lo hi :=
    List.forall_mem_map.mpr hcentre
  have hwithin := Profile.moments_within hvalues (degrees_nonneg shapes x) (by simp)
  rw [List.zipWith_map, List.zipWith_self] at hwithin
  simp only [mul_comm (centre _)] at hwithin
  exact ⟨(le_div_iff₀ hpos).mpr hwithin.1, (div_le_iff₀ hpos).mpr hwithin.2⟩

end

/-! ## 4. Relevance -/

/-- The centre of the band of relevance for a band of similarity. -/
noncomputable def bandCentre (band : String) : ℝ :=
  Grading.degreeOf Vocabulary.relevanceCentres ((relevanceBand.lookup band).getD band)

/-- **Relevance is the mean of the centres** of the bands, weighted by the degrees of similarity. -/
theorem relevanceOf_eq (s : ℝ) :
    relevanceOf s = meanAt (Vocabulary.similarity : Variable ℝ).shapes bandCentre s := by
  rw [relevanceOf, weightedCentre_eq, relevanceGrades, Variable.fuzzify_eq, gradesAt]
  · simp only [List.map_map]
    rfl
  · simp only [relevanceGrades, Variable.fuzzify_eq, gradesAt, List.forall_mem_map]
    exact fun e _ => e.2.degree_nonneg s

theorem covers_similarity :
    Covers 0.16 ((Vocabulary.similarity : Variable ℝ).shapes.map (·.2)) :=
  Vocabulary.covers_shapes (by simp [Vocabulary.all])

/-- The centres of the bands, from the lowest to the highest. -/
theorem map_bandCentre : (Vocabulary.similarity : Variable ℝ).shapes.map (fun s => bandCentre s.1) =
    [0.1, 0.35, 0.55, 0.75, 0.9] := by
  simp [Variable.shapes, Vocabulary.similarity, Vocabulary.onUnit, bandCentre, relevanceBand,
    Vocabulary.relevanceCentres, Grading.degreeOf, List.lookup]

theorem relevanceOf_mono : Monotone (relevanceOf : ℝ → ℝ) := by
  have hcentre : (Vocabulary.similarity : Variable ℝ).shapes.Pairwise
      fun s t => bandCentre s.1 ≤ bandCentre t.1 := by
    rw [← List.pairwise_map (f := fun s : String × Shape ℝ => bandCentre s.1) (R := (· ≤ ·)),
      map_bandCentre]
    norm_num
  rw [funext relevanceOf_eq]
  exact meanAt_mono covers_similarity (by norm_num) (by norm_num) hcentre

theorem relevanceOf_mem (s : ℝ) : relevanceOf s ∈ Set.Icc 0.1 0.9 := by
  have hcentre : ∀ c ∈ (Vocabulary.similarity : Variable ℝ).shapes.map (fun s => bandCentre s.1),
      c ∈ Set.Icc (0.1 : ℝ) 0.9 := by
    rw [map_bandCentre]
    norm_num
  rw [relevanceOf_eq]
  exact meanAt_mem covers_similarity (by norm_num) (by norm_num) (List.forall_mem_map.mp hcentre) s

/-- **No title is wholly relevant or wholly irrelevant.**  Relevance never falls while similarity
grows, and stays between 0.1 and 0.9.  So each returned title counts with a tenth at least among the
true positives and among the false ones, whatever the similarity is. -/
theorem confusion_confined :
    Monotone (relevanceOf : ℝ → ℝ) ∧ (∀ s : ℝ, relevanceOf s ∈ Set.Icc 0.1 0.9) ∧
      ∀ (β : Type) (similarity : β → β → ℝ) (returned expected : List β),
        let m := confusion similarity returned expected
        0.1 * returned.length ≤ m.truePositive ∧ m.truePositive ≤ 0.9 * returned.length ∧
          0.1 * returned.length ≤ m.falsePositive := by
  refine ⟨relevanceOf_mono, relevanceOf_mem, ?_⟩
  intro β similarity returned expected m
  set relevances := (bestSimilarities similarity returned expected).map relevanceOf with hdef
  have hlength : relevances.length = returned.length := by
    rw [hdef, List.length_map, length_bestSimilarities]
  have hmem : ∀ r ∈ relevances, r ∈ Set.Icc (0.1 : ℝ) 0.9 :=
    List.forall_mem_map.mpr fun s _ => relevanceOf_mem s
  have htrue : m.truePositive = relevances.sum := Scalar.total_eq_sum _
  have hfalse : m.falsePositive = returned.length - relevances.sum := by
    rw [← hlength]
    exact shortfall_eq _
  have hge := List.card_nsmul_le_sum relevances 0.1 fun r hr => (hmem r hr).1
  have hle := List.sum_le_card_nsmul relevances 0.9 fun r hr => (hmem r hr).2
  rw [hlength, nsmul_eq_mul] at hge hle
  rw [htrue, hfalse]
  refine ⟨by linarith, by linarith, by linarith⟩

end Graded
