/-
# Words for numbers

A crisp value is put into words by the fuzzy set in which it has the greatest degree, and a
proportion by the quantifier that fits it best.  Both are the strongest of a family of named shapes
(`gradesAt`), so what is known of families that cover the line decides how the words behave:

* the words follow the numbers, a greater number never getting an earlier word
  (`place_strongest_mono`);
* the word that is chosen holds at least to the height at which neighbours cross
  (`exists_strongest`).

The quantifiers cross at 0.4 or above, the sets of the ready-made variables at 1/6 or above, and
those of all but one of the variables at a quarter or above.
-/
import Graded.Proofs.Leading
import Graded.Proofs.Tiling
import Graded.Quantifier
import Graded.Vocabulary

namespace Graded

/-! ## 1. Named shapes -/

/-- The degrees of a number in shapes under names. -/
noncomputable def gradesAt (shapes : Keyed (Shape ℝ)) (x : ℝ) : Grading ℝ :=
  shapes.map fun s => (s.1, s.2.degree x)

/-- The place of a name in a list of names. -/
def placeOf (names : List String) (name : String) : ℕ := names.idxOf name

section

variable {shapes : Keyed (Shape ℝ)} {h : ℝ}

/-- **The strongest of shapes that cover the line** is as high as neighbours cross at least, higher
than all shapes before it, and no lower than any. -/
theorem exists_strongest (hc : Covers h (shapes.map (·.2))) (h0 : 0 < h) (h1 : h ≤ 1)
    (fallback : String) (x : ℝ) : ∃ i, ∃ hi : i < shapes.length,
      Grading.strongest fallback (gradesAt shapes x) = (shapes[i].1, shapes[i].2.degree x) ∧
      h ≤ shapes[i].2.degree x ∧
      (∀ j (hj : j < i), shapes[j].2.degree x < shapes[i].2.degree x) ∧
      ∀ j (hj : j < shapes.length), shapes[j].2.degree x ≤ shapes[i].2.degree x := by
  obtain ⟨s, hs, hheight⟩ := hc.exists_height h1 x
  obtain ⟨⟨name, s⟩, hmem, rfl⟩ := List.mem_map.mp hs
  have hgrade : (name, s.degree x) ∈ gradesAt shapes x := List.mem_map.mpr ⟨_, hmem, rfl⟩
  have hleads : Leads (·.2) (gradesAt shapes x)
      (Grading.strongest fallback (gradesAt shapes x)) :=
    strongest_leads Scalar.ordered_real trivial (fun _ _ => trivial)
      ⟨_, hgrade, h0.trans_le hheight⟩ fallback
  have hle := fun {g} hg => hleads.le Scalar.ordered_real (fun _ _ => trivial) (y := g) hg
  obtain ⟨i, hi, heq, hbefore, -⟩ := hleads.exists_place
  have hlength : (gradesAt shapes x).length = shapes.length := List.length_map _
  have hget : ∀ j (hj : j < (gradesAt shapes x).length) (hj' : j < shapes.length),
      (gradesAt shapes x)[j] = (shapes[j].1, shapes[j].2.degree x) := fun j _ _ => by
    simp [gradesAt]
  have hi' : i < shapes.length := hlength ▸ hi
  rw [hget i hi hi'] at heq
  refine ⟨i, hi', heq.symm, ?_, fun j hj => ?_, fun j hj => ?_⟩
  · rw [← heq] at hle
    exact hheight.trans (hle hgrade)
  · have hlt := hbefore j hj
    rw [← heq, hget j (hj.trans hi) (hj.trans hi')] at hlt
    exact not_le.mp hlt
  · rw [← heq] at hle
    exact hle (List.mem_map.mpr ⟨shapes[j], List.getElem_mem hj, rfl⟩)

/-- **Words follow numbers**: where shapes with different names cover the line, the place of the
strongest never goes back. -/
theorem place_strongest_mono (hc : Covers h (shapes.map (·.2))) (h0 : 0 < h) (h1 : h ≤ 1)
    (hn : (shapes.map (·.1)).Nodup) (fallback : String) :
    Monotone fun x =>
      placeOf (shapes.map (·.1)) (Grading.strongest fallback (gradesAt shapes x)).1 := by
  intro x y hxy
  obtain ⟨i, hi, hx, -, hbefore, -⟩ := exists_strongest hc h0 h1 fallback x
  obtain ⟨j, hj, hy, hheight, -, hle⟩ := exists_strongest hc h0 h1 fallback y
  have hplace : ∀ k (hk : k < shapes.length), placeOf (shapes.map (·.1)) shapes[k].1 = k := by
    intro k hk
    have := hn.idxOf_getElem k (by simpa using hk)
    rwa [List.getElem_map] at this
  simp only [hx, hy, hplace]
  by_contra hji
  have hji : j < i := not_le.mp hji
  -- the earlier word is overtaken at `x` already, but there is something of it at `y`
  have hovertaken := List.pairwise_iff_getElem.mp hc.pairwise_overtaken j i (by simpa using hj)
    (by simpa using hi) hji x y hxy
  simp only [List.getElem_map] at hovertaken
  rcases hovertaken (hbefore j hji) with hzero | hlt
  · exact (h0.trans_le hheight).ne' hzero
  · exact (hle i hi).not_gt hlt

end

/-! ## 2. Quantifiers -/

namespace Quantifier

/-- The quantifiers as named shapes. -/
noncomputable def shapes : Keyed (Shape ℝ) := relative.map fun q => (q.name, q.shape)

/-- The names of the quantifiers, from the least proportion to the greatest. -/
noncomputable def names : List String := (relative : List (Quantifier ℝ)).map (·.name)

theorem grades_eq (p : ℝ) : grades p = gradesAt shapes p := by
  simp [grades, gradesAt, shapes, degree]

theorem names_eq : shapes.map (·.1) = names := by simp [shapes, names]

theorem nodup_names : names.Nodup := by simp [names, relative]

theorem covers_shapes : Covers 0.39 (shapes.map (·.2)) := by
  simp only [shapes, relative, List.map_cons, List.map_nil]
  refine .intro (by norm_num) ?_
  repeat refine .next (by norm_num) (by norm_num) (by norm_num) (by norm_num) (by norm_num) ?_
  exact .last (by norm_num) (by norm_num) (by norm_num) (by norm_num)

/-- **A greater proportion never gets a weaker word**, and the word holds at least to 0.39.  So
the fallback is never reported, and with the usual threshold some quantifier applies. -/
theorem best_mono :
    (Monotone fun p : ℝ => placeOf names (best p).1) ∧
      ∀ p : ℝ, best p ∈ grades p ∧ 0.39 ≤ (best p).2 ∧ best p ≠ (fallback, 0) ∧
        applicable p 0.3 ≠ [] := by
  refine ⟨?_, fun p => ?_⟩
  · have hmono := place_strongest_mono covers_shapes (by norm_num) (by norm_num)
      (names_eq ▸ nodup_names) fallback
    simpa only [best, grades_eq, names_eq] using hmono
  · obtain ⟨i, hi, hbest, hheight, -⟩ :=
      exists_strongest covers_shapes (by norm_num) (by norm_num) fallback p
    have hmem : best p ∈ grades p := by
      rw [best, grades_eq, hbest]
      exact List.mem_map.mpr ⟨_, List.getElem_mem hi, rfl⟩
    have hle : 0.39 ≤ (best p).2 := by
      rw [best, grades_eq, hbest]
      exact hheight
    refine ⟨hmem, hle, fun heq => ?_, fun hnil => ?_⟩
    · rw [heq] at hle
      norm_num at hle
    · have happly : best p ∈ applicable p 0.3 :=
        (Grading.ranked_perm _).mem_iff.mpr (Grading.mem_reaching.mpr ⟨hmem, by linarith⟩)
      exact absurd (hnil ▸ happly) List.not_mem_nil

end Quantifier

/-! ## 3. Ready-made variables -/

namespace Variable

/-- The sets of a variable as named shapes. -/
def shapes (v : Variable ℝ) : Keyed (Shape ℝ) := v.sets.map fun s => (s.name, s.shape)

theorem fuzzify_eq (v : Variable ℝ) (x : ℝ) : v.fuzzify x = gradesAt v.shapes x := by
  simp [fuzzify, gradesAt, shapes]

theorem names_shapes (v : Variable ℝ) : v.shapes.map (·.1) = v.setNames := by
  simp [shapes, setNames]

end Variable

namespace Vocabulary

theorem eq_timeNeeded {v : Variable ℝ} (hv : v ∈ all) (hname : v.name = "time_needed") :
    v = timeNeeded := by
  simp only [all, List.mem_cons, List.not_mem_nil, or_false] at hv
  rcases hv with rfl | rfl | rfl | rfl | rfl | rfl
  case inr.inr.inr.inl => rfl
  all_goals simp [confidence, similarity, difficulty, suitability, relevance, onUnit] at hname

theorem covers_timeNeeded : Covers 0.16 ((timeNeeded : Variable ℝ).shapes.map (·.2)) := by
  simp only [timeNeeded, onUnit, Variable.shapes, List.map_cons, List.map_nil]
  refine .intro (by norm_num) ?_
  repeat refine .next (by norm_num) (by norm_num) (by norm_num) (by norm_num) (by norm_num) ?_
  exact .last (by norm_num) (by norm_num) (by norm_num) (by norm_num)

/-- The sets of all variables but the time that is needed cross at a quarter or above. -/
theorem covers_quarter {v : Variable ℝ} (hv : v ∈ all) (hname : v.name ≠ "time_needed") :
    Covers 0.25 (v.shapes.map (·.2)) := by
  simp only [all, List.mem_cons, List.not_mem_nil, or_false] at hv
  rcases hv with rfl | rfl | rfl | rfl | rfl | rfl
  case inr.inr.inr.inl => exact absurd rfl hname
  all_goals
    simp only [confidence, similarity, difficulty, suitability, relevance, onUnit,
      Variable.shapes, List.map_cons, List.map_nil]
    refine .intro (by norm_num) ?_
    repeat refine .next (by norm_num) (by norm_num) (by norm_num) (by norm_num) (by norm_num) ?_
    exact .last (by norm_num) (by norm_num) (by norm_num) (by norm_num)

/-- The sets of each variable cover the line. -/
theorem covers_shapes {v : Variable ℝ} (hv : v ∈ all) : Covers 0.16 (v.shapes.map (·.2)) := by
  by_cases hname : v.name = "time_needed"
  · rw [eq_timeNeeded hv hname]
    exact covers_timeNeeded
  · exact (covers_quarter hv hname).anti (by norm_num)

/-- **The sets of a ready-made variable lie in order and leave no gap**: a greater number never has
an earlier dominant set, what is positive at a number are at most two sets, next to each other,
and the dominant one holds at least to 0.16. -/
theorem dominant_mono {v : Variable ℝ} (hv : v ∈ all) :
    (Monotone fun x : ℝ => placeOf v.setNames (v.dominant x).1) ∧
      ∀ x : ℝ, v.dominant x ∈ v.fuzzify x ∧ 0.16 ≤ (v.dominant x).2 ∧
        ∃ i, ∀ j (hj : j < v.sets.length), 0 < v.sets[j].shape.degree x → j = i ∨ j = i + 1 := by
  have hcovers := covers_shapes hv
  refine ⟨?_, fun x => ?_⟩
  · have hmono := place_strongest_mono hcovers (by norm_num) (by norm_num)
      (v.names_shapes ▸ v.distinct) v.first.name
    simpa only [Variable.dominant, v.fuzzify_eq, v.names_shapes] using hmono
  · obtain ⟨i, hi, hdominant, hheight, -⟩ :=
      exists_strongest hcovers (by norm_num) (by norm_num) v.first.name x
    obtain ⟨k, hk⟩ := hcovers.exists_neighbours x
    refine ⟨?_, ?_, k, fun j hj hpos => ?_⟩
    · rw [Variable.dominant, v.fuzzify_eq, hdominant]
      exact List.mem_map.mpr ⟨_, List.getElem_mem hi, rfl⟩
    · rw [Variable.dominant, v.fuzzify_eq, hdominant]
      exact hheight
    · exact hk j (by simpa [Variable.shapes] using hj) (by simpa [Variable.shapes] using hpos)

/-- The time that an activity takes, whose sets cross lowest. -/
theorem dominant_mono_timeNeeded :
    (timeNeeded : Variable ℝ) ∈ all ∧
      (Monotone fun x : ℝ => placeOf (timeNeeded : Variable ℝ).setNames
        ((timeNeeded : Variable ℝ).dominant x).1) ∧
      0.16 ≤ ((timeNeeded : Variable ℝ).dominant 0.375).2 := by
  have hmem : (timeNeeded : Variable ℝ) ∈ all := by simp [all]
  obtain ⟨hmono, hdominant⟩ := dominant_mono hmem
  exact ⟨hmem, hmono, (hdominant 0.375).2.1⟩

end Vocabulary

end Graded
