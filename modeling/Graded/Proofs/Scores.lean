/-
# Scores of longer and of perfect answers

Titles and names count with their best similarity, the greatest one to any candidate.  More
candidates never lower it.  So names that are added never make the titles look worse, and titles
that are added never make names look more missed, wherever they are put (`measure_grows`).
Precision and recall are means, so they are raised exactly if something has found a better match.

A mean of numbers up to 1 is 1 only if all of them are (`plainMean_eq_one_iff`), the greatest of
some similarities up to 1 is 1 only if one of them is (`snd_bestMatch_eq_one_iff`), and two titles
have a similarity of 1 only if they are the same in the form in which they are compared.  So there
is no false perfect score.  F1 lies between precision and recall, as a harmonic mean does, is 0 as
soon as one of them is, and 1 only if both are (`measure_titles`).
-/
import Graded.Proofs.Finding
import Graded.Proofs.Relevance
import Graded.Proofs.Truth

namespace Graded

/-! ## 1. Means -/

section

variable {β : Type} {f g : β → ℝ} {l : List β} {xs : List ℝ} {a b : ℝ}

theorem plainMean_eq_proportion (xs : List ℝ) : plainMean xs = proportion xs := rfl

theorem plainMean_map_mono (h : ∀ x ∈ l, f x ≤ g x) :
    plainMean (l.map f) ≤ plainMean (l.map g) := by
  rw [plainMean_eq, plainMean_eq, List.length_map, List.length_map]
  exact div_le_div_of_nonneg_right (List.sum_le_sum h) (Nat.cast_nonneg _)

/-- **A mean grows exactly if some value does**, where none falls. -/
theorem plainMean_map_lt_iff (h : ∀ x ∈ l, f x ≤ g x) :
    plainMean (l.map f) < plainMean (l.map g) ↔ ∃ x ∈ l, f x < g x := by
  constructor
  · intro hlt
    by_contra hnone
    have hge : ∀ x ∈ l, g x ≤ f x := by
      intro x hx
      exact not_lt.mp fun hx' => hnone ⟨x, hx, hx'⟩
    exact (plainMean_map_mono hge).not_gt hlt
  · rintro ⟨x, hx, hlt⟩
    have hpos : (0 : ℝ) < l.length := Nat.cast_pos.mpr (List.length_pos_of_mem hx)
    rw [plainMean_eq, plainMean_eq, List.length_map, List.length_map]
    exact div_lt_div_of_pos_right (List.sum_lt_sum f g h ⟨x, hx, hlt⟩) hpos

/-- **A mean of numbers up to 1 is 1 only if all of them are.** -/
theorem plainMean_eq_one_iff (hne : xs ≠ []) (h : ∀ x ∈ xs, x ≤ 1) :
    plainMean xs = 1 ↔ ∀ x ∈ xs, x = 1 := by
  have hone : plainMean (xs.map fun _ => (1 : ℝ)) = 1 := by
    have hpos : (xs.length : ℝ) ≠ 0 := by simpa using hne
    rw [plainMean_eq, List.length_map, List.map_const', List.sum_replicate, nsmul_eq_mul, mul_one]
    exact div_self hpos
  have hle := plainMean_map_mono (f := id) h
  have hlt := plainMean_map_lt_iff (f := id) h
  rw [List.map_id, hone] at hle hlt
  constructor
  · intro heq x hx
    refine le_antisymm (h x hx) (not_lt.mp ?_)
    intro hx'
    exact (hlt.mpr ⟨x, hx, hx'⟩).ne heq
  · intro hall
    refine le_antisymm hle (not_lt.mp ?_)
    intro hmean
    obtain ⟨x, hx, hx'⟩ := hlt.mp hmean
    exact hx'.ne (hall x hx)

/-! ## 2. Harmonic means -/

/-- The harmonic mean, by one formula.  Of two zeros that is a division by 0, and 0. -/
theorem harmonicMean_eq (ha : 0 ≤ a) (hb : 0 ≤ b) : harmonicMean a b = 2 * a * b / (a + b) := by
  unfold harmonicMean
  split_ifs with h
  · have hzero : a + b = 0 := le_antisymm h (add_nonneg ha hb)
    rw [hzero, div_zero]
  · norm_num

theorem harmonicMean_mem_of_le (ha : 0 ≤ a) (hab : a ≤ b) : harmonicMean a b ∈ Set.Icc a b := by
  have hb : 0 ≤ b := ha.trans hab
  rw [harmonicMean_eq ha hb]
  rcases (add_nonneg ha hb).eq_or_lt with hzero | hpos
  · have hazero : a = 0 := by linarith
    have hbzero : b = 0 := by linarith
    simp [hazero, hbzero]
  · have hgain : 0 ≤ a * (b - a) := mul_nonneg ha (sub_nonneg.mpr hab)
    have hrest : 0 ≤ b * (b - a) := mul_nonneg hb (sub_nonneg.mpr hab)
    constructor
    · rw [le_div_iff₀ hpos]
      linarith
    · rw [div_le_iff₀ hpos]
      linarith

/-- **A harmonic mean lies between the two.** -/
theorem harmonicMean_mem (ha : 0 ≤ a) (hb : 0 ≤ b) :
    harmonicMean a b ∈ Set.Icc (min a b) (max a b) := by
  rcases le_total a b with hab | hba
  · rw [min_eq_left hab, max_eq_right hab]
    exact harmonicMean_mem_of_le ha hab
  · rw [min_eq_right hba, max_eq_left hba, harmonicMean_comm]
    exact harmonicMean_mem_of_le hb hba

theorem harmonicMean_eq_zero_iff (ha : 0 ≤ a) (hb : 0 ≤ b) :
    harmonicMean a b = 0 ↔ a = 0 ∨ b = 0 := by
  rw [harmonicMean_eq ha hb, div_eq_zero_iff, mul_eq_zero, mul_eq_zero]
  constructor
  · rintro (((htwo | h) | h) | h)
    · exact absurd htwo two_ne_zero
    · exact .inl h
    · exact .inr h
    · exact .inl (by linarith)
  · rintro (h | h)
    · exact .inl (.inl (.inr h))
    · exact .inl (.inr h)

/-- Two scores up to 1 have a harmonic mean of 1 only if both are 1. -/
theorem harmonicMean_eq_one_iff (ha : a ∈ Set.Icc 0 1) (hb : b ∈ Set.Icc 0 1) :
    harmonicMean a b = 1 ↔ a = 1 ∧ b = 1 := by
  rw [harmonicMean_eq ha.1 hb.1]
  constructor
  · intro h
    have hne : a + b ≠ 0 := by
      intro hzero
      rw [hzero, div_zero] at h
      exact zero_ne_one h
    -- what the scores lack to 1 makes up two terms that are not negative and add up to 0
    have hmul : 2 * a * b = a + b := (div_eq_one_iff_eq hne).mp h
    have hleft : 0 ≤ a * (1 - b) := mul_nonneg ha.1 (sub_nonneg.mpr hb.2)
    have hright : 0 ≤ b * (1 - a) := mul_nonneg hb.1 (sub_nonneg.mpr ha.2)
    obtain rfl : a = b := by linarith
    have hazero : a ≠ 0 := by
      rintro rfl
      exact hne (add_zero 0)
    have hone : a = 1 := mul_left_cancel₀ hazero (by linarith)
    exact ⟨hone, hone⟩
  · rintro ⟨rfl, rfl⟩
    norm_num

end

/-! ## 3. The best similarity -/

section

variable {β : Type} {similarity : β → β → ℝ} {name : β} {l l' returned expected : List β} {y : ℝ}

theorem snd_bestMatch_le_iff :
    (bestMatch similarity name l).2 ≤ y ↔ 0 ≤ y ∧ ∀ c ∈ l, similarity name c ≤ y := by
  rw [snd_bestMatch, foldl_max_le_iff, List.forall_mem_map]

theorem snd_bestMatch_lt_iff :
    (bestMatch similarity name l).2 < y ↔ 0 < y ∧ ∀ c ∈ l, similarity name c < y := by
  rw [snd_bestMatch, foldl_max_lt_iff, List.forall_mem_map]

theorem snd_bestMatch_nonneg (similarity : β → β → ℝ) (name : β) (l : List β) :
    0 ≤ (bestMatch similarity name l).2 := by
  rw [snd_bestMatch]
  exact (foldl_max_le_iff.mp le_rfl).1

theorem le_snd_bestMatch {c : β} (hc : c ∈ l) :
    similarity name c ≤ (bestMatch similarity name l).2 :=
  (snd_bestMatch_le_iff.mp le_rfl).2 c hc

/-- Some similarity up to 1 is 1 if the best one is. -/
theorem snd_bestMatch_eq_one_iff (h : ∀ c ∈ l, similarity name c ≤ 1) :
    (bestMatch similarity name l).2 = 1 ↔ ∃ c ∈ l, similarity name c = 1 := by
  have hle : (bestMatch similarity name l).2 ≤ 1 := snd_bestMatch_le_iff.mpr ⟨zero_le_one, h⟩
  constructor
  · intro heq
    by_contra hnone
    have hlt : (bestMatch similarity name l).2 < 1 := by
      refine snd_bestMatch_lt_iff.mpr ⟨zero_lt_one, ?_⟩
      intro c hc
      exact (h c hc).lt_of_ne fun hone => hnone ⟨c, hc, hone⟩
    exact hlt.ne heq
  · rintro ⟨c, hc, hone⟩
    exact le_antisymm hle (hone ▸ le_snd_bestMatch hc)

/-- **More candidates never lower the best similarity.** -/
theorem snd_bestMatch_mono (h : l ⊆ l') :
    (bestMatch similarity name l).2 ≤ (bestMatch similarity name l').2 := by
  refine snd_bestMatch_le_iff.mpr ⟨snd_bestMatch_nonneg _ _ _, ?_⟩
  intro c hc
  exact le_snd_bestMatch (h hc)

/-- Among the second candidates there is one that the name resembles more than any of the first. -/
def Outdone (similarity : β → β → ℝ) (name : β) (l l' : List β) : Prop :=
  ∃ c ∈ l', 0 < similarity name c ∧ ∀ b ∈ l, similarity name b < similarity name c

/-- They raise it exactly if one of them is more similar than all before. -/
theorem snd_bestMatch_lt_snd_bestMatch_iff :
    (bestMatch similarity name l).2 < (bestMatch similarity name l').2 ↔
      Outdone similarity name l l' := by
  constructor
  · intro hlt
    by_contra hnone
    refine hlt.not_ge (snd_bestMatch_le_iff.mpr ⟨snd_bestMatch_nonneg _ _ _, ?_⟩)
    intro c hc
    refine not_lt.mp ?_
    intro hc'
    exact hnone ⟨c, hc, snd_bestMatch_lt_iff.mp hc'⟩
  · rintro ⟨c, hc, hlt⟩
    exact (snd_bestMatch_lt_iff.mpr hlt).trans_le (le_snd_bestMatch hc)

/-! ## 4. More names, more titles -/

variable (similarity)

/-- What names find among more candidates. -/
theorem bestSimilarities_mono (names : List β) (h : l ⊆ l') :
    plainMean (bestSimilarities similarity names l) ≤
        plainMean (bestSimilarities similarity names l') ∧
      (plainMean (bestSimilarities similarity names l) <
          plainMean (bestSimilarities similarity names l') ↔
        ∃ n ∈ names, Outdone similarity n l l') := by
  have hle : ∀ n ∈ names, (bestMatch similarity n l).2 ≤ (bestMatch similarity n l').2 := by
    intro n _
    exact snd_bestMatch_mono h
  refine ⟨plainMean_map_mono hle, ?_⟩
  rw [bestSimilarities, bestSimilarities, plainMean_map_lt_iff hle]
  simp only [snd_bestMatch_lt_snd_bestMatch_iff]

/-- Names find more among more candidates, and so they lack less. -/
theorem shortfall_bestSimilarities_anti (names : List β) (h : l ⊆ l') :
    shortfall (bestSimilarities similarity names l') ≤
      shortfall (bestSimilarities similarity names l) := by
  rw [shortfall_eq, shortfall_eq, length_bestSimilarities, length_bestSimilarities]
  refine sub_le_sub_left (List.sum_le_sum ?_) _
  intro n _
  exact snd_bestMatch_mono h

/-- Titles find more among more names, and so more of them is relevant. -/
theorem sum_relevances_mono (titles : List β) (h : l ⊆ l') :
    ((bestSimilarities similarity titles l).map relevanceOf).sum ≤
      ((bestSimilarities similarity titles l').map relevanceOf).sum := by
  rw [bestSimilarities, bestSimilarities, List.map_map, List.map_map]
  refine List.sum_le_sum ?_
  intro t _
  exact relevanceOf_mono (snd_bestMatch_mono h)

theorem confusion_grows (returned : List β) (h : l ⊆ l') :
    (confusion similarity returned l).truePositive ≤
        (confusion similarity returned l').truePositive ∧
      (confusion similarity returned l').falsePositive ≤
        (confusion similarity returned l).falsePositive := by
  have hsum := sum_relevances_mono similarity returned h
  constructor
  · change Scalar.total _ ≤ Scalar.total _
    rw [Scalar.total_eq_sum, Scalar.total_eq_sum]
    exact hsum
  · change shortfall _ ≤ shortfall _
    rw [shortfall_eq, shortfall_eq, List.length_map, List.length_map, length_bestSimilarities,
      length_bestSimilarities]
    exact sub_le_sub_left hsum _

/-- **More names make no title worse, and more titles make no name worse**, wherever they are put.
With more names the precision and the true positives do not fall and the false positives do not
rise, and with more titles the recall does not fall and the false negatives do not rise.  Precision
and recall do rise exactly if something has a better match. -/
theorem measure_grows (returned : List β) (he : expected ≠ []) :
    (∀ expected', expected.Sublist expected' →
      let m := (measure similarity returned expected).value
      let m' := (measure similarity returned expected').value
      m.matrix = confusion similarity returned expected ∧
        m'.matrix = confusion similarity returned expected' ∧
        m.precision ≤ m'.precision ∧
        m.matrix.truePositive ≤ m'.matrix.truePositive ∧
        m'.matrix.falsePositive ≤ m.matrix.falsePositive ∧
        (m.precision < m'.precision ↔ ∃ t ∈ returned, Outdone similarity t expected expected')) ∧
    ∀ returned', returned.Sublist returned' →
      let m := (measure similarity returned expected).value
      let m' := (measure similarity returned' expected).value
      m'.matrix = confusion similarity returned' expected ∧
        m.recalled ≤ m'.recalled ∧
        m'.matrix.falseNegative ≤ m.matrix.falseNegative ∧
        (m.recalled < m'.recalled ↔ ∃ n ∈ expected, Outdone similarity n returned returned') := by
  constructor
  · intro expected' hsub m m'
    have he' : expected' ≠ [] := by
      rintro rfl
      exact he (List.sublist_nil.mp hsub)
    have hm : m.matrix = confusion similarity returned expected := matrix_measure returned he
    have hm' : m'.matrix = confusion similarity returned expected' := matrix_measure returned he'
    obtain ⟨htrue, hfalse⟩ := confusion_grows similarity returned hsub.subset
    have hmean := bestSimilarities_mono similarity returned hsub.subset
    rw [← precision_measure, ← precision_measure] at hmean
    refine ⟨hm, hm', hmean.1, ?_, ?_, hmean.2⟩
    · rw [hm, hm']
      exact htrue
    · rw [hm, hm']
      exact hfalse
  · intro returned' hsub m m'
    have hm : m.matrix = confusion similarity returned expected := matrix_measure returned he
    have hm' : m'.matrix = confusion similarity returned' expected := matrix_measure returned' he
    have hmean := bestSimilarities_mono similarity expected hsub.subset
    rw [← recalled_measure, ← recalled_measure] at hmean
    refine ⟨hm', hmean.1, ?_, hmean.2⟩
    rw [hm, hm']
    exact shortfall_bestSimilarities_anti similarity expected hsub.subset

/-- A second name is a match for the first title, and a second title is one for the name. -/
theorem measure_grows_uphill :
    [2] ≠ [] ∧ [2].Sublist [1, 2] ∧
      (measure uphill [1, 2] [2]).value.precision <
        (measure uphill [1, 2] [1, 2]).value.precision ∧
      [1].Sublist [1, 2] ∧
      (measure uphill [1] [2]).value.recalled < (measure uphill [1, 2] [2]).value.recalled := by
  have hne : [2] ≠ [] := by decide
  have hnames : [2].Sublist [1, 2] := by decide
  have htitles : [1].Sublist [1, 2] := by decide
  obtain ⟨-, -, -, -, -, hprecision⟩ := (measure_grows uphill [1, 2] hne).1 [1, 2] hnames
  obtain ⟨-, -, -, hrecall⟩ := (measure_grows uphill [1] hne).2 [1, 2] htitles
  refine ⟨hne, hnames, hprecision.mpr ⟨1, by simp, 1, by simp, ?_⟩, htitles,
    hrecall.mpr ⟨2, by simp, 2, by simp, ?_⟩⟩
  · norm_num [uphill]
  · norm_num [uphill]

end

/-! ## 5. Perfect scores -/

namespace Title

/-- Two titles are equal up to their case and the blanks around them. -/
def Same (s t : String) : Prop := normal s.toList = normal t.toList

instance (s t : String) : Decidable (Same s t) := inferInstanceAs (Decidable (_ = _))

theorem nearness_le_one (s t : String) : nearness s t ≤ 1 := (likeness_mem _ _).2

theorem nearness_eq_one_iff {s t : String} : nearness s t = 1 ↔ Same s t := likeness_eq_one_iff

end Title

section

variable {names candidates returned expected : List String}

theorem bestSimilarity_mem (name : String) (candidates : List String) :
    (bestMatch Title.nearness name candidates).2 ∈ Set.Icc 0 1 := by
  constructor
  · exact snd_bestMatch_nonneg _ _ _
  · refine snd_bestMatch_le_iff.mpr ⟨zero_le_one, ?_⟩
    intro c _
    exact Title.nearness_le_one name c

theorem plainMean_bestSimilarities_mem (names candidates : List String) :
    plainMean (bestSimilarities Title.nearness names candidates) ∈ Set.Icc 0 1 := by
  rw [plainMean_eq_proportion]
  refine proportion_mem ?_
  intro s hs
  obtain ⟨n, -, rfl⟩ := List.mem_map.mp hs
  exact bestSimilarity_mem n candidates

/-- **No false perfect score**: names have a mean best similarity of 1 only if each of them is among
the candidates, up to case and blanks. -/
theorem plainMean_bestSimilarities_eq_one_iff (hne : names ≠ []) :
    plainMean (bestSimilarities Title.nearness names candidates) = 1 ↔
      ∀ n ∈ names, ∃ c ∈ candidates, Title.Same n c := by
  have hne' : bestSimilarities Title.nearness names candidates ≠ [] := by
    simpa [bestSimilarities] using hne
  have hle : ∀ s ∈ bestSimilarities Title.nearness names candidates, s ≤ 1 := by
    intro s hs
    obtain ⟨n, -, rfl⟩ := List.mem_map.mp hs
    exact (bestSimilarity_mem n candidates).2
  have hbest : ∀ n, (bestMatch Title.nearness n candidates).2 = 1 ↔
      ∃ c ∈ candidates, Title.Same n c := by
    intro n
    rw [snd_bestMatch_eq_one_iff fun c _ => Title.nearness_le_one n c]
    simp only [Title.nearness_eq_one_iff]
  rw [plainMean_eq_one_iff hne' hle, bestSimilarities, List.forall_mem_map]
  simp only [hbest]

/-- Scores that are degrees, of which F1 lies between the other two and is 0 only with one of them,
and of which none is perfect unless the titles are, up to case and blanks: the precision if every
returned title is expected, the recall if every expected name was returned, F1 if both hold. -/
structure Metrics.Sound (m : Metrics ℝ String) (returned expected : List String) : Prop where
  precision_mem : m.precision ∈ Set.Icc 0 1
  recalled_mem : m.recalled ∈ Set.Icc 0 1
  f1_mem : m.f1 ∈ Set.Icc 0 1
  f1_between : m.f1 ∈ Set.Icc (min m.precision m.recalled) (max m.precision m.recalled)
  f1_eq_zero_iff : m.f1 = 0 ↔ m.precision = 0 ∨ m.recalled = 0
  precision_eq_one_iff : m.precision = 1 ↔ ∀ t ∈ returned, ∃ n ∈ expected, Title.Same t n
  recalled_eq_one_iff : m.recalled = 1 ↔ ∀ n ∈ expected, ∃ t ∈ returned, Title.Same n t
  f1_eq_one_iff : m.f1 = 1 ↔ (∀ t ∈ returned, ∃ n ∈ expected, Title.Same t n) ∧
    ∀ n ∈ expected, ∃ t ∈ returned, Title.Same n t

/-- **The scores of titles are sound.** -/
theorem measure_titles (hr : returned ≠ []) (he : expected ≠ []) :
    (measure Title.nearness returned expected).value.Sound returned expected := by
  set m := (measure Title.nearness returned expected).value with hm
  have hprecision : m.precision ∈ Set.Icc 0 1 := by
    rw [hm, precision_measure]
    exact plainMean_bestSimilarities_mem returned expected
  have hrecall : m.recalled ∈ Set.Icc 0 1 := by
    rw [hm, recalled_measure]
    exact plainMean_bestSimilarities_mem expected returned
  have hexpected : m.precision = 1 ↔ ∀ t ∈ returned, ∃ n ∈ expected, Title.Same t n := by
    rw [hm, precision_measure]
    exact plainMean_bestSimilarities_eq_one_iff hr
  have hreturned : m.recalled = 1 ↔ ∀ n ∈ expected, ∃ t ∈ returned, Title.Same n t := by
    rw [hm, recalled_measure]
    exact plainMean_bestSimilarities_eq_one_iff he
  have hf1 : m.f1 = harmonicMean m.precision m.recalled := f1_measure _ _ _
  have hbetween := harmonicMean_mem hprecision.1 hrecall.1
  rw [← hf1] at hbetween
  refine ⟨hprecision, hrecall, ?_, hbetween, ?_, hexpected, hreturned, ?_⟩
  · constructor
    · exact (le_min hprecision.1 hrecall.1).trans hbetween.1
    · exact hbetween.2.trans (max_le hprecision.2 hrecall.2)
  · rw [hf1]
    exact harmonicMean_eq_zero_iff hprecision.1 hrecall.1
  · rw [hf1, harmonicMean_eq_one_iff hprecision hrecall, hexpected, hreturned]

/-- The name was returned, in capitals, but so was another one: the recall is 1 and F1 is not. -/
theorem measure_titles_zug :
    [" ZUG", "Zag"] ≠ [] ∧ ["Zug"] ≠ [] ∧
      (measure Title.nearness [" ZUG", "Zag"] ["Zug"]).value.precision ≠ 1 ∧
      (measure Title.nearness [" ZUG", "Zag"] ["Zug"]).value.recalled = 1 ∧
      (measure Title.nearness [" ZUG", "Zag"] ["Zug"]).value.f1 ≠ 1 := by
  have hr : [" ZUG", "Zag"] ≠ [] := by decide
  have he : ["Zug"] ≠ [] := by decide
  have hsound := measure_titles hr he
  have hother : ¬ ∀ t ∈ [" ZUG", "Zag"], ∃ n ∈ ["Zug"], Title.Same t n := by decide +kernel
  have hfound : ∀ n ∈ ["Zug"], ∃ t ∈ [" ZUG", "Zag"], Title.Same n t := by decide +kernel
  refine ⟨hr, he, ?_, hsound.recalled_eq_one_iff.mpr hfound, ?_⟩
  · intro h
    exact hother (hsound.precision_eq_one_iff.mp h)
  · intro h
    exact hother (hsound.f1_eq_one_iff.mp h).1

end

end Graded
