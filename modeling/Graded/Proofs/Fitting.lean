/-
# The summary that fits best

There are two ways to the best summary of items by one summarizer: to look for the quantifier that
fits their proportion best, or to generate the summaries of all quantifiers, ranked by truth, and to
take the first.  The search finds the quantifier whose degree leads, the ranking puts the summary
whose truth leads in front, and the truth of a summary is the degree of its quantifier.  So the two
agree wherever the degrees are in order and one is positive (`agree_of_ordered`), which exact degrees
always are.

The truth of a summary of no items is 0 by convention, whatever its quantifier.  The search does not
know this: it finds that a proportion of 0 is entirely "none".  So for no items the ways differ, and
for no items only (`agree_iff`), also in doubles (`Doubles.not_agree_nil`).
-/
import Graded.Proofs.Failure
import Graded.Proofs.Words
import Graded.Summary.Generation

namespace Graded

/-! ## 1. What leads in lists made from lists -/

section

variable {α β γ : Type} [Scalar α] {value : β → α} {f : γ → β} {l : List β} {k : List γ}

/-- What leads in the image of a list comes from what leads in the list. -/
theorem Leads.exists_of_map {x : β} (h : Leads value (k.map f) x) :
    ∃ u, f u = x ∧ Leads (fun u => value (f u)) k u := by
  obtain ⟨before, after, heq, hbefore, hafter⟩ := h
  obtain ⟨before', rest, rfl, rfl, hrest⟩ := List.map_eq_append_iff.mp heq
  obtain ⟨u, after', rfl, rfl, rfl⟩ := List.map_eq_cons_iff.mp hrest
  refine ⟨u, rfl, before', after', rfl, fun y hy => ?_, fun y hy => ?_⟩
  · exact hbefore _ (List.mem_map_of_mem hy)
  · exact hafter _ (List.mem_map_of_mem hy)

/-- What leads keeps the lead among any elements that it is one of. -/
theorem Leads.filter {x : β} {p : β → Bool} (h : Leads value l x) (hx : p x = true) :
    Leads value (l.filter p) x := by
  obtain ⟨before, after, rfl, hbefore, hafter⟩ := h
  refine ⟨before.filter p, after.filter p, by simp [hx], fun y hy => ?_, fun y hy => ?_⟩
  · exact hbefore y (List.mem_of_mem_filter hy)
  · exact hafter y (List.mem_of_mem_filter hy)

end

namespace Summary

/-! ## 2. The two ways -/

section

variable {α ι : Type} [Scalar α] {items : List ι} {s : Summarizer ι α} {subject : String}
  {degrees : List α}

/-- Wherever the items have degrees, the best summary is the first that is generated, and its truth
is that of the quantifier it names. -/
def Agree (items : List ι) (s : Summarizer ι α) (subject : String) : Prop :=
  ∀ degrees, items.mapM s.degree = .ok degrees → ∃ b rest q,
    best items s subject = .ok b ∧
    generate items [s] subject 0 Quantifier.relative = .ok (b :: rest) ∧
    Quantifier.find b.quantifier = .ok q ∧ b.truth = Truth.simple q degrees

theorem best_eq (h : items.mapM s.degree = .ok degrees) :
    best items s subject = .ok (fitting subject s.name (proportion degrees) false) := by
  rw [best, h]
  rfl

theorem generate_eq (h : items.mapM s.degree = .ok degrees) (least : α)
    (quantifiers : List (Quantifier α)) : generate items [s] subject least quantifiers =
      .ok (ranked (candidates subject least quantifiers s.name degrees)) := by
  simp only [generate, List.mapM_cons, List.mapM_nil, h, bind, Except.bind, pure, Except.pure,
    List.flatten_cons, List.flatten_nil, List.append_nil]

omit [Scalar α] in
/-- Items that have degrees have some. -/
theorem ne_nil_of_mapM (hne : items ≠ []) (h : items.mapM s.degree = .ok degrees) :
    degrees ≠ [] := by
  cases items with
  | nil => exact absurd rfl hne
  | cons item items =>
    rintro rfl
    rw [List.mapM_cons] at h
    cases hitem : s.degree item with
    | error e => rw [hitem] at h; cases h
    | ok mu =>
      cases hitems : items.mapM s.degree with
      | error e => rw [hitem, hitems] at h; cases h
      | ok mus => rw [hitem, hitems] at h; cases h

theorem find_of_mem {q : Quantifier α} (hq : q ∈ Quantifier.relative) :
    Quantifier.find q.name = .ok q := by
  simp only [Quantifier.relative, List.mem_cons, List.not_mem_nil, or_false] at hq
  rcases hq with rfl | rfl | rfl | rfl | rfl | rfl | rfl | rfl | rfl
  all_goals rfl

variable {P : α → Prop}

/-- **The two ways agree** where the degrees of the proportion are in order and one is positive. -/
theorem agree_of_ordered (hP : Scalar.Ordered P) (hzero : P 0) (hne : items ≠ [])
    (hdegrees : ∀ degrees, items.mapM s.degree = .ok degrees →
      (∀ q ∈ Quantifier.relative, P (q.degree (proportion degrees))) ∧
        ∃ q ∈ Quantifier.relative, 0 < q.degree (proportion degrees)) :
    Agree items s subject := by
  intro degrees h
  obtain ⟨hall, q, hq, hpos⟩ := hdegrees degrees h
  have hsimple : ∀ q : Quantifier α, Truth.simple q degrees = q.degree (proportion degrees) :=
    fun q => by rw [Truth.simple, if_neg (by simpa using ne_nil_of_mapM hne h)]
  have hgrades : ∀ g ∈ Quantifier.grades (proportion degrees), P g.2 :=
    List.forall_mem_map.mpr hall
  -- the search finds a quantifier, and the quantifier leads
  have hleads := strongest_leads hP hzero hgrades ⟨_, List.mem_map_of_mem hq, hpos⟩
    Quantifier.fallback
  have hle := hleads.le hP hgrades (List.mem_map_of_mem hq)
  obtain ⟨w, hw, hwleads⟩ := hleads.exists_of_map
  rw [← hw] at hle
  have hnonneg : 0 ≤ w.degree (proportion degrees) := by
    have hPw := hall w hwleads.mem
    refine (hP.total hzero hPw).resolve_right fun hneg => ?_
    exact (hP.lt_iff hzero (hall q hq)).mp hpos (hP.trans (hall q hq) hPw hzero hle hneg)
  -- its summary leads among those that are generated, as their truths are the degrees
  let summaryOf : Quantifier α → Summary α := ofDegrees subject s.name degrees
  have hsummary : Leads Summary.truth (candidates subject 0 Quantifier.relative s.name degrees)
      (summaryOf w) := by
    refine Leads.filter (Leads.map (f := summaryOf) ?_) (decide_eq_true ?_)
    · simpa only [summaryOf, ofDegrees, hsimple] using hwleads
    · simpa only [summaryOf, ofDegrees, hsimple] using hnonneg
  have hordered : ∀ t ∈ candidates subject 0 Quantifier.relative s.name degrees,
      P t.truth := by
    intro t ht
    obtain ⟨v, hv, rfl⟩ := List.mem_map.mp (List.mem_of_mem_filter ht)
    simpa only [ofDegrees, hsimple] using hall v hv
  obtain ⟨x, rest, hx, hxleads⟩ := exists_mergeSort hP hordered (List.ne_nil_of_mem hsummary.mem)
  have hbest : Quantifier.best (proportion degrees) = (w.name, w.degree (proportion degrees)) :=
    hw.symm
  refine ⟨summaryOf w, rest, w, ?_, ?_, find_of_mem hwleads.mem, rfl⟩
  · rw [best_eq h, fitting, hbest, ← hsimple]
    rfl
  · rw [generate_eq h, ranked, hx, hxleads.unique hsummary]

/-- No items have a truth of 0, so the two ways differ where something fits a proportion of 0. -/
theorem not_agree_of_fits (h : (Quantifier.best (0 : α)).2 ≠ 0) :
    ¬ Agree ([] : List ι) s subject := by
  intro hagree
  obtain ⟨b, rest, q, hbest, -, -, htruth⟩ := hagree [] rfl
  rw [best_eq (show ([] : List ι).mapM s.degree = .ok [] from rfl)] at hbest
  cases hbest
  exact h htruth

end

/-! ## 3. Where they agree -/

section

variable {ι : Type}

/-- Some quantifier has a positive degree of any proportion, and so has the one that fits best. -/
theorem exists_fitting (p : ℝ) :
    ∃ q ∈ Quantifier.relative, 0 < q.degree p ∧ Quantifier.best p = (q.name, q.degree p) := by
  obtain ⟨i, hi, hbest, hheight, -⟩ := exists_strongest Quantifier.covers_shapes (by norm_num)
    (by norm_num) Quantifier.fallback p
  obtain ⟨q, hq, hshape⟩ := List.mem_map.mp (List.getElem_mem hi)
  rw [← hshape] at hbest hheight
  rw [← Quantifier.grades_eq] at hbest
  exact ⟨q, hq, lt_of_lt_of_le (by norm_num) hheight, hbest⟩

/-- **The two ways agree for all items but none**, whatever degrees the summarizer gives them. -/
theorem agree_iff (items : List ι) (s : Summarizer ι ℝ) (subject : String) :
    Agree items s subject ↔ items ≠ [] := by
  constructor
  · rintro h rfl
    obtain ⟨q, -, hpos, hbest⟩ := exists_fitting 0
    refine not_agree_of_fits ?_ h
    rw [hbest]
    exact hpos.ne'
  · intro hne
    refine agree_of_ordered Scalar.ordered_real trivial hne fun degrees _ =>
      ⟨fun _ _ => trivial, ?_⟩
    obtain ⟨q, hq, hpos, -⟩ := exists_fitting (proportion degrees)
    exact ⟨q, hq, hpos⟩

end

end Summary

/-! ## 4. Doubles -/

namespace Doubles

/-- In doubles, too, the truth of a summary of no items is 1 one way and 0 the other. -/
theorem not_agree_nil :
    ¬ ∀ items : List Float, Summary.Agree items ⟨"low", fun mu => .ok mu⟩ "results" := fun h =>
  Summary.not_agree_of_fits (by decide +kernel) (h [])

end Doubles
end Graded
