/-
# Which words fit

What the words for a value are is asked in several ways: which set holds it most, which sets hold
it to a threshold at least, the greatest degree first or in the order of the sets, and what to say
of it in a sentence.  The quantifiers of a proportion are asked in the first two ways, too.

The answers come from a search, a filter and a sort, and agree (`words_consistent`).  The element
that leads is what the search finds and what the sort puts first, also where no degree is positive,
as the search begins with the first set; and the sort leaves an arrangement, of which a higher
threshold keeps a prefix.

A sentence is made from the sets that reach a fifth.  So it names the dominant set first, unless
that one stays below a fifth itself, and then it says nothing (`describe_cases`).  Whether this
happens depends on where the sets of a variable cross.  Those of five variables cross at a quarter
or above.  Two sets of the time that is needed cross at a sixth, and so a value between them has no
words (`describe_dominant_iff`).
-/
import Graded.Proofs.Arranging
import Graded.Proofs.Fitting
import Graded.Wording

namespace Graded

/-! ## 1. Answers that agree -/

namespace Grading

variable {grades : Grading ℝ} {first best : String × ℝ}

/-- A name, and lists of names for thresholds, are answers to the question which of the graded names
fit that agree: the name is the first of greatest degree, the lists are the stable descending
arrangements of what reaches the threshold, a higher threshold keeps a prefix, and whatever list is
not empty has the name in front. -/
structure Consistent (grades : Grading ℝ) (best : String × ℝ) (above : ℝ → Grading ℝ) : Prop where
  leads : Leads (·.2) grades best
  arranged : ∀ t, Arranged (·.2) (grades.filter fun g => t ≤ g.2) (above t)
  shortens : ∀ t t', t ≤ t' → above t' <+: above t
  heads : ∀ t, t ≤ best.2 → (above t).head? = some best

/-- Where no degree is positive the search ends as it began. -/
theorem strongest_of_nonpos (h : ∀ g ∈ grades, g.2 ≤ 0) (fallback : String) :
    strongest fallback grades = (fallback, 0) := by
  induction grades with
  | nil => rfl
  | cons g grades ih =>
    have hstep : stronger (fallback, 0) g = (fallback, 0) := by
      have hg : g.2 ≤ 0 := h g List.mem_cons_self
      exact if_neg hg.not_gt
    rw [strongest, List.foldl_cons, hstep]
    exact ih fun k hk => h k (List.mem_cons_of_mem _ hk)

/-- **The search that begins with the first name finds the one that leads**, also where no degree is
positive. -/
theorem strongest_leads_of_nonneg (h : ∀ g ∈ first :: grades, 0 ≤ g.2) :
    Leads (·.2) (first :: grades) (strongest first.1 (first :: grades)) := by
  by_cases hpos : ∃ g ∈ first :: grades, 0 < g.2
  · exact strongest_leads Scalar.ordered_real trivial (fun _ _ => trivial) hpos _
  · have hzero : ∀ g ∈ first :: grades, g.2 = 0 := by
      intro g hg
      exact le_antisymm (not_lt.mp fun hlt => hpos ⟨g, hg, hlt⟩) (h g hg)
    have hfirst : (first.1, 0) = first := by
      rw [← hzero first List.mem_cons_self]
    rw [strongest_of_nonpos (fun g hg => (hzero g hg).le), hfirst]
    refine ⟨[], grades, rfl, by simp, ?_⟩
    intro g hg
    have hgzero : g.2 = 0 := hzero g (List.mem_cons_of_mem _ hg)
    exact (hgzero.trans (hzero first List.mem_cons_self).symm).le

/-- **What leads agrees with the ranked lists.** -/
theorem consistent_of_leads (h : Leads (·.2) grades best) :
    Consistent grades best fun t => ranked (reaching t grades) := by
  have harranged : ∀ t, Arranged (·.2) (grades.filter fun g => t ≤ g.2)
      (ranked (reaching t grades)) := by
    intro t
    exact arranged_mergeSort _ _
  refine ⟨h, harranged, ?_, ?_⟩
  · intro t t' htt'
    exact (harranged t).prefix_of_le (harranged t') htt'
  · intro t ht
    have hleads : Leads (·.2) (reaching t grades) best := h.filter (decide_eq_true ht)
    obtain ⟨x, rest, hsort, hx⟩ := exists_mergeSort Scalar.ordered_real (fun _ _ => trivial)
      (List.ne_nil_of_mem hleads.mem)
    rw [ranked, hsort, hx.unique hleads]
    rfl

end Grading

/-! ## 2. Variables and quantifiers -/

namespace Variable

variable {v : Variable ℝ} {x t : ℝ}

/-- **The dominant set leads.** -/
theorem dominant_leads (v : Variable ℝ) (x : ℝ) : Leads (·.2) (v.fuzzify x) (v.dominant x) := by
  have hcons : v.fuzzify x = (v.first.name, v.first.shape.degree x) ::
      v.sets.tail.map fun s => (s.name, s.shape.degree x) := by
    rw [fuzzify, ← List.map_cons (f := fun s : FuzzySet ℝ => (s.name, s.shape.degree x)), first,
      List.cons_head_tail]
  have hnonneg : ∀ g ∈ v.fuzzify x, 0 ≤ g.2 := by
    intro g hg
    obtain ⟨s, -, rfl⟩ := List.mem_map.mp hg
    exact s.shape.degree_nonneg x
  rw [dominant]
  rw [hcons] at hnonneg ⊢
  exact Grading.strongest_leads_of_nonneg hnonneg

/-- What the dominant set reaches is what any set reaches. -/
theorem le_dominant_iff (v : Variable ℝ) {x t : ℝ} :
    t ≤ (v.dominant x).2 ↔ ∃ s ∈ v.sets, t ≤ s.shape.degree x := by
  have hleads := v.dominant_leads x
  constructor
  · intro ht
    obtain ⟨s, hs, heq⟩ := List.mem_map.mp hleads.mem
    refine ⟨s, hs, ?_⟩
    rwa [← heq] at ht
  · rintro ⟨s, hs, ht⟩
    exact ht.trans (hleads.le Scalar.ordered_real (fun _ _ => trivial) (List.mem_map_of_mem hs))

theorem terms_consistent (v : Variable ℝ) (x : ℝ) :
    Grading.Consistent (v.fuzzify x) (v.dominant x) (v.terms x) :=
  Grading.consistent_of_leads (v.dominant_leads x)

end Variable

namespace Quantifier

end Quantifier

namespace Description

variable {α : Type} [Scalar α]

/-- The sentence about something called `label` names a term first: between the label and the term
there is no more than a hedge or a "between". -/
def Opens (sentence label term : String) : Prop :=
  ∃ lead ∈ ["", "between ", "slightly ", "somewhat ", "quite ", "definitely "], ∃ rest,
    sentence = label ++ " is " ++ lead ++ Text.spaced term ++ rest

theorem first?_ofTerms (terms : Grading α) : (ofTerms terms).first? = terms.head?.map (·.1) := by
  match terms with
  | [] => rfl
  | [_] => rfl
  | first :: _ :: _ =>
    rw [ofTerms]
    split_ifs <;> rfl

/-- **The term that is said to be first is the first in the sentence.** -/
theorem opens_text [Legible α] {d : Description α} {term : String} (h : d.first? = some term)
    (label : String) : Opens (d.text label) label term := by
  cases d with
  | undefined => cases h
  | hedged hedge term' =>
    cases h
    refine ⟨hedge.text ++ " ", ?_, "", ?_⟩
    · cases hedge <;> decide
    · simp [text, String.append_assoc]
  | leading term' mu =>
    cases h
    refine ⟨"", by simp, " (" ++ Legible.places 0 (mu * 100.0) ++ "%)", ?_⟩
    simp [text, String.append_assoc]
  | between first second =>
    cases h
    refine ⟨"between ", by simp, " and " ++ Text.spaced second, ?_⟩
    simp [text, String.append_assoc]

end Description

namespace Variable

variable {v : Variable ℝ} {x : ℝ}

/-- **A sentence names the dominant set first, or says nothing** if that set stays below a fifth. -/
theorem describe_cases (v : Variable ℝ) (x : ℝ) :
    0.2 ≤ (v.dominant x).2 ∧ (v.describe x).first? = some (v.dominant x).1 ∨
      (v.dominant x).2 < 0.2 ∧ v.describe x = .undefined := by
  have hconsistent := v.terms_consistent x
  rcases le_or_gt 0.2 (v.dominant x).2 with hle | hlt
  · refine .inl ⟨hle, ?_⟩
    have hhead : (v.terms x 0.2).head? = some (v.dominant x) := hconsistent.heads 0.2 hle
    rw [describe, Description.first?_ofTerms, hhead]
    rfl
  · refine .inr ⟨hlt, ?_⟩
    have hnone : v.terms x 0.2 = [] := by
      refine List.eq_nil_iff_forall_not_mem.mpr ?_
      intro g hg
      obtain ⟨hmem, hreach⟩ := List.mem_filter.mp ((hconsistent.arranged 0.2).perm.mem_iff.mp hg)
      have hgle : g.2 ≤ (v.dominant x).2 :=
        hconsistent.leads.le Scalar.ordered_real (fun _ _ => trivial) hmem
      exact ((of_decide_eq_true hreach).trans hgle).not_gt hlt
    rw [describe, hnone]
    rfl

end Variable

/-! ## 4. Where words are missing -/

namespace Vocabulary

variable {v : Variable ℝ} {x : ℝ}

/-- The time that is needed is too long to be short and too short to be half a day. -/
def Unsaid (v : Variable ℝ) (x : ℝ) : Prop := v.name = "time_needed" ∧ 0.37 < x ∧ x < 0.38

/-- Each set of the time that is needed reaches a fifth on an interval, and these leave a gap. -/
theorem exists_fifth_timeNeeded_iff :
    (∃ s ∈ (timeNeeded : Variable ℝ).sets, 0.2 ≤ s.shape.degree x) ↔ ¬ (0.37 < x ∧ x < 0.38) := by
  have hreach : (∃ s ∈ (timeNeeded : Variable ℝ).sets, 0.2 ≤ s.shape.degree x) ↔
      x ≤ 0.18 ∨ 0.13 ≤ x ∧ x ≤ 0.37 ∨ 0.38 ≤ x ∧ x ≤ 0.62 ∨ 0.59 ≤ x ∧ x ≤ 0.83 ∨ 0.78 ≤ x := by
    simp only [timeNeeded, onUnit, List.mem_cons, List.not_mem_nil, or_false, exists_eq_or_imp,
      exists_eq_left]
    rw [Shape.le_degree_leftShoulder_iff, Shape.le_degree_triangular_iff,
      Shape.le_degree_triangular_iff, Shape.le_degree_triangular_iff,
      Shape.le_degree_rightShoulder_iff]
    all_goals norm_num
  rw [hreach]
  constructor
  · rintro (h | ⟨-, h⟩ | ⟨h, -⟩ | ⟨h, -⟩ | h) ⟨hlow, hhigh⟩
    all_goals linarith
  · intro hout
    rcases le_or_gt x 0.37 with hlow | hlow
    · rcases le_or_gt x 0.18 with h | h
      · exact .inl h
      · exact .inr (.inl ⟨by linarith, hlow⟩)
    · have hhigh : 0.38 ≤ x := not_lt.mp fun hlt => hout ⟨hlow, hlt⟩
      rcases le_or_gt x 0.62 with h | h
      · exact .inr (.inr (.inl ⟨hhigh, h⟩))
      · rcases le_or_gt x 0.83 with h' | h'
        · exact .inr (.inr (.inr (.inl ⟨by linarith, h'⟩)))
        · exact .inr (.inr (.inr (.inr (by linarith))))

/-- **The dominant set holds at least to a fifth**, except in the gap. -/
theorem fifth_le_dominant_iff (hv : v ∈ all) (x : ℝ) :
    0.2 ≤ (v.dominant x).2 ↔ ¬ Unsaid v x := by
  rw [v.le_dominant_iff]
  by_cases hname : v.name = "time_needed"
  · obtain rfl := eq_timeNeeded hv hname
    rw [exists_fifth_timeNeeded_iff, Unsaid]
    simp only [hname, true_and]
  · have hcovers : Covers 0.2 (v.shapes.map (·.2)) := (covers_quarter hv hname).anti (by norm_num)
    obtain ⟨s, hs, hheight⟩ := hcovers.exists_height (by norm_num) x
    simp only [Variable.shapes, List.map_map, List.mem_map] at hs
    obtain ⟨f, hf, rfl⟩ := hs
    constructor
    · intro _ hunsaid
      exact hname hunsaid.1
    · intro _
      exact ⟨f, hf, hheight⟩

/-- **A sentence about a value of a ready-made variable names the dominant set first**, at the
beginning of what it says, except in one gap: of a time that is needed between 0.37 and 0.38 it says
that it is undefined. -/
theorem describe_dominant_iff (hv : v ∈ all) (x : ℝ) :
    ((v.describe x).first? = some (v.dominant x).1 ↔ ¬ Unsaid v x) ∧
      (v.describe x = .undefined ↔ Unsaid v x) ∧
      (¬ Unsaid v x → ∀ [Legible ℝ] (label : String),
        Description.Opens ((v.describe x).text label) label (v.dominant x).1) := by
  have hfifth := fifth_le_dominant_iff hv x
  rcases v.describe_cases x with ⟨hle, hfirst⟩ | ⟨hlt, hundefined⟩
  · have hsaid : ¬ Unsaid v x := hfifth.mp hle
    have hdefined : v.describe x ≠ .undefined := by
      intro h
      rw [h] at hfirst
      cases hfirst
    refine ⟨iff_of_true hfirst hsaid, iff_of_false hdefined hsaid, ?_⟩
    intro _ _ label
    exact Description.opens_text hfirst label
  · have hunsaid : Unsaid v x := not_not.mp fun h => (hfifth.mpr h).not_gt hlt
    have hfirst : (v.describe x).first? ≠ some (v.dominant x).1 := by
      intro h
      rw [hundefined] at h
      cases h
    exact ⟨iff_of_false hfirst (not_not.mpr hunsaid), iff_of_true hundefined hunsaid,
      fun h => absurd hunsaid h⟩

theorem unsaid_timeNeeded : Unsaid (timeNeeded : Variable ℝ) 0.372 :=
  ⟨rfl, by norm_num, by norm_num⟩

/-- At the end of the gap the sentence names a set, and within it none. -/
theorem describe_dominant_iff_timeNeeded :
    (timeNeeded : Variable ℝ) ∈ all ∧ ¬ Unsaid (timeNeeded : Variable ℝ) 0.37 ∧
      ((timeNeeded : Variable ℝ).describe 0.37).first? =
        some ((timeNeeded : Variable ℝ).dominant 0.37).1 ∧
      (timeNeeded : Variable ℝ).describe 0.372 = .undefined := by
  have hmem : (timeNeeded : Variable ℝ) ∈ all := by simp [all]
  have hsaid : ¬ Unsaid (timeNeeded : Variable ℝ) 0.37 := fun h => lt_irrefl _ h.2.1
  exact ⟨hmem, hsaid, (describe_dominant_iff hmem 0.37).1.mpr hsaid,
    (describe_dominant_iff hmem 0.372).2.1.mpr unsaid_timeNeeded⟩

/-- **Some values of a variable have no words**, though a set holds them more than the others. -/
theorem not_describe_dominant :
    ¬ ∀ v ∈ (all : List (Variable ℝ)), ∀ x, v.low ≤ x → x ≤ v.high →
      (v.describe x).first? = some (v.dominant x).1 ∧ v.describe x ≠ .undefined := by
  intro h
  have hmem : (timeNeeded : Variable ℝ) ∈ all := by simp [all]
  have hlow : (timeNeeded : Variable ℝ).low ≤ 0.372 := show (0 : ℝ) ≤ 0.372 by norm_num
  have hhigh : 0.372 ≤ (timeNeeded : Variable ℝ).high := show (0.372 : ℝ) ≤ 1 by norm_num
  obtain ⟨-, hdefined⟩ := h timeNeeded hmem 0.372 hlow hhigh
  rcases (timeNeeded : Variable ℝ).describe_cases 0.372 with ⟨hle, -⟩ | ⟨-, hundefined⟩
  · exact (fifth_le_dominant_iff hmem 0.372).mp hle unsaid_timeNeeded
  · exact hdefined hundefined

end Vocabulary

end Graded
