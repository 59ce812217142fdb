/-
# Columns and the list of models

In exact arithmetic every whole number is near a number, so the search for the kind of a column
never fails (`check_eq`).  A column of texts stays as it is (`settled_texts`).

Models that are named by texts make one list: each name once, in the order of their letters
(`models_eq`).  It is known by its members alone, so it does not matter in which order the records
come, nor how many there are of a model.
-/
import Graded.Proofs.Exact
import Graded.Comparison

namespace Graded

/-! ## 1. Kinds of columns -/

namespace Column

/-- No whole number is beyond exact arithmetic. -/
theorem beyond_withCell {s : Survey} (h : s.beyond = false) (d : Document ℝ) :
    (s.withCell d).beyond = false := by
  cases d with
  | integer n =>
    have hfinite : Scalar.isInfinite (n : ℝ) = false := rfl
    rw [Survey.withCell, hfinite]
    cases hnull : s.null <;> simp [Survey.withWhole, hnull, h]
  | real x => simpa [Survey.withCell] using h
  | _ => exact h

theorem beyond_through {s : Survey} (h : s.beyond = false) (cells : List (Document ℝ)) :
    (s.through cells).beyond = false := by
  induction cells generalizing s with
  | nil => exact h
  | cons d cells ih =>
    rw [Survey.through]
    split_ifs
    · exact h
    · exact ih (beyond_withCell h d)

/-- **In exact arithmetic every column has a kind.** -/
theorem check_eq (cells : List (Document ℝ)) : check cells = .ok () := by
  rw [check, tooGreat, survey, beyond_through rfl, if_neg Bool.false_ne_true]

/-- Texts keep their form. -/
theorem settled_texts {cells : List (Document ℝ)} (h : ∀ d ∈ cells, isText d) :
    settled cells = cells := by
  have hsettle : ∀ d ∈ cells, (Kind.of cells).settle d = d := by
    intro d hd
    have hall : areTexts cells = true := by
      rw [areTexts, Bool.and_eq_true, List.any_eq_true, List.all_eq_true]
      exact ⟨⟨d, hd, h d hd⟩, fun e he => by simp [h e he]⟩
    rw [Kind.of, hall, if_pos rfl]
    cases d with
    | text s => rfl
    | _ => exact absurd (h _ hd) Bool.false_ne_true
  rw [settled, List.map_congr_left hsettle, List.map_id']

end Column

/-! ## 2. Models -/

/-- A filter with effects that lets everything pass. -/
theorem filterM_eq_self {β ε : Type} {p : β → Except ε Bool} {l : List β}
    (h : ∀ x ∈ l, p x = .ok true) : l.filterM p = .ok l := by
  have haux : ∀ acc, List.filterAuxM p l acc = .ok (l.reverse ++ acc) := by
    induction l with
    | nil => exact fun _ => rfl
    | cons x l ih =>
      intro acc
      rw [List.filterAuxM, h x List.mem_cons_self]
      refine (ih (fun y hy => h y (List.mem_cons_of_mem _ hy)) (x :: acc)).trans ?_
      simp
  rw [List.filterM, haux []]
  simp [bind, Except.bind, pure, Except.pure]

/-- Names are collected once each. -/
theorem distinctModels_texts (names seen : List String) (hseen : seen.Nodup) :
    ∃ found : List String, distinctModels (seen.map .text) (names.map .text) =
        (found.map .text : List (Document ℝ)) ∧
      found.Nodup ∧ ∀ m, m ∈ found ↔ m ∈ seen ∨ m ∈ names := by
  induction names generalizing seen with
  | nil => exact ⟨seen, rfl, hseen, by simp⟩
  | cons name names ih =>
    have hany : ((seen.map .text : List (Document ℝ)).any (Document.same (.text name))) =
        decide (name ∈ seen) := by
      rw [Bool.eq_iff_iff, List.any_map, List.any_eq_true, decide_eq_true_iff]
      simp [Document.same]
    rw [List.map_cons, distinctModels, hany]
    by_cases hmem : name ∈ seen
    · obtain ⟨found, heq, hnodup, hfound⟩ := ih seen hseen
      refine ⟨found, by simpa [hmem] using heq, hnodup, fun m => ?_⟩
      rw [hfound, List.mem_cons]
      constructor
      · exact Or.imp_right .inr
      · rintro (h | rfl | h)
        · exact .inl h
        · exact .inl hmem
        · exact .inr h
    · obtain ⟨found, heq, hnodup, hfound⟩ := ih (seen ++ [name])
        (hseen.append (List.nodup_singleton name) (List.disjoint_singleton.mpr hmem))
      refine ⟨found, by simpa [hmem] using heq, hnodup, fun m => ?_⟩
      rw [hfound, List.mem_append, List.mem_singleton, List.mem_cons, or_assoc]

/-- Names in the order of their letters. -/
def ascending (names : List String) : List String := names.mergeSort fun a b => decide (a ≤ b)

theorem mem_ascending {m : String} {names : List String} : m ∈ ascending names ↔ m ∈ names :=
  List.mem_mergeSort

/-- Distinct names ascend strictly. -/
theorem pairwise_ascending {names : List String} (h : names.Nodup) :
    (ascending names).Pairwise (· < ·) := by
  have hle : (ascending names).Pairwise fun a b => decide (a ≤ b) = true :=
    List.pairwise_mergeSort
      (fun a b c hab hbc =>
        decide_eq_true ((of_decide_eq_true hab).trans (of_decide_eq_true hbc)))
      (fun a b => by simpa using le_total a b) names
  have hne : (ascending names).Nodup := (List.mergeSort_perm names _).nodup_iff.mpr h
  exact hle.imp₂ (fun a b hab hne => lt_of_le_of_ne (of_decide_eq_true hab) hne) hne

/-- **The models of records that are named by texts**: each name once, in ascending order. -/
theorem models_eq {records : List (Record ℝ)} {texts : List String}
    (h : records.map (·.model) = texts.map .text) :
    ∃ names : List String, models records = .ok (names.map .text) ∧
      names.Pairwise (· < ·) ∧ ∀ m, m ∈ names ↔ m ∈ texts := by
  have hnamed : records.filterM (fun r => namesModel r.model) =
      (.ok records : Except (Fault ℝ) _) :=
    filterM_eq_self fun r hr => by
      obtain ⟨s, -, hs⟩ := List.mem_map.mp (h ▸ List.mem_map_of_mem hr)
      rw [← hs]
      rfl
  obtain ⟨found, hdistinct, hnodup, hfound⟩ := distinctModels_texts texts [] List.nodup_nil
  rw [← h, List.map_nil] at hdistinct
  have hsorted : (found.map .text : List (Document ℝ)).mergeSort modelBefore =
      (ascending found).map .text :=
    (List.map_mergeSort (f := (Document.text : String → Document ℝ)) fun _ _ _ _ => rfl).symm
  have hcells : ∀ d ∈ ((ascending found).map .text : List (Document ℝ)), Column.isText d := by
    intro d hd
    obtain ⟨s, -, rfl⟩ := List.mem_map.mp hd
    rfl
  refine ⟨ascending found, ?_, pairwise_ascending hnodup, fun m => ?_⟩
  · simp only [models, hnamed, bind, Except.bind, hdistinct, hsorted, Column.check_eq,
      Column.settled_texts hcells, pure, Except.pure]
  · rw [mem_ascending, hfound]
    simp

end Graded
