/-
# The models of a report

Whatever the cases are, and in any arithmetic: if there is a report on them, it has a record for
each case, and its rows come from the models that the cases name (`Report.Lists`, `report_lists`).
Numbers and texts both name models.  The order of numbers need not be an order where some are
undefined, but the texts come after them, each once.
-/
import Graded.Proofs.Success
import Graded.RunRecord

namespace Graded

/-! ## 1. Sorting by a relation that respects a distinction -/

/-- Merging keeps what passes a test behind what does not. -/
theorem pairwise_merge_of_test {β : Type} {p : β → Bool} {le : β → β → Bool}
    (hle : ∀ a b, p a = false → p b = true → le a b = true ∧ le b a = false) {xs ys : List β}
    (hxs : xs.Pairwise fun a b => p a = true → p b = true)
    (hys : ys.Pairwise fun a b => p a = true → p b = true) :
    (xs.merge ys le).Pairwise fun a b => p a = true → p b = true := by
  induction xs generalizing ys with
  | nil => rwa [List.nil_merge]
  | cons x xs ihx =>
    induction ys with
    | nil => rwa [List.merge_right]
    | cons y ys ihy =>
      rw [List.cons_merge_cons]
      obtain ⟨hx, hxs'⟩ := List.pairwise_cons.mp hxs
      obtain ⟨hy, hys'⟩ := List.pairwise_cons.mp hys
      split
      next hxy =>
        refine List.pairwise_cons.mpr ⟨fun z hz hpx => ?_, ihx hxs' hys⟩
        have hpy : p y = true := by
          by_contra hpy
          rw [(hle y x (Bool.eq_false_of_not_eq_true hpy) hpx).2] at hxy
          cases hxy
        rcases List.mem_merge.mp hz with hz | hz
        · exact hx z hz hpx
        · rcases List.mem_cons.mp hz with rfl | hz
          · exact hpy
          · exact hy z hz hpy
      next hxy =>
        refine List.pairwise_cons.mpr ⟨fun z hz hpy => ?_, ihy hys'⟩
        have hpx : p x = true := by
          by_contra hpx
          exact hxy (hle x y (Bool.eq_false_of_not_eq_true hpx) hpy).1
        rcases List.mem_merge.mp hz with hz | hz
        · rcases List.mem_cons.mp hz with rfl | hz
          · exact hpx
          · exact hx z hz hpx
        · exact hy z hz hpy

/-- So sorting brings what passes the test behind what does not. -/
theorem pairwise_mergeSort_of_test {β : Type} {p : β → Bool} {le : β → β → Bool}
    (hle : ∀ a b, p a = false → p b = true → le a b = true ∧ le b a = false) :
    ∀ xs : List β, (xs.mergeSort le).Pairwise fun a b => p a = true → p b = true
  | [] => by simp
  | [x] => by simp
  | x :: y :: xs => by
    rw [List.mergeSort]
    exact pairwise_merge_of_test hle (pairwise_mergeSort_of_test hle _)
      (pairwise_mergeSort_of_test hle _)
termination_by xs => xs.length

variable {α : Type} [Scalar α]

/-! ## 2. Cells and columns -/

namespace Column

/-- A cell is a text before its kind is known exactly if it is one afterwards. -/
theorem settle_eq_text {k : Kind} {d : Document α} {s : String} :
    k.settle d = .text s ↔ d = .text s := by
  cases k with
  | reals => cases d <;> simp [Kind.settle]
  | texts =>
    cases d with
    | real x =>
      unfold Kind.settle
      dsimp only
      split <;> simp
    | _ => simp [Kind.settle, isMissing]
  | _ => rfl

omit [Scalar α] in
theorem isText_iff {d : Document α} : isText d = true ↔ ∃ s, d = .text s := by
  cases d <;> simp [isText]

end Column

/-! ## 3. Models -/

/-- The documents are not the same text. -/
def Apart (a b : Document α) : Prop := ∀ s, a = .text s → b ≠ .text s

theorem pairwise_distinctModels (models seen : List (Document α)) (h : seen.Pairwise Apart) :
    (distinctModels seen models).Pairwise Apart := by
  induction models generalizing seen with
  | nil => exact h
  | cons m models ih =>
    rw [distinctModels]
    split
    next => exact ih seen h
    next hany =>
      refine ih _ (List.pairwise_append.mpr ⟨h, List.pairwise_singleton _ _, ?_⟩)
      intro a ha b hb s hs hb'
      rw [List.mem_singleton.mp hb] at hb'
      refine hany (List.any_eq_true.mpr ⟨a, ha, ?_⟩)
      rw [hs, hb']
      simp [Document.same]

theorem mem_of_mem_distinctModels {models seen : List (Document α)} :
    ∀ m ∈ distinctModels seen models, m ∈ seen ∨ m ∈ models := by
  induction models generalizing seen with
  | nil => exact fun m hm => .inl hm
  | cons m models ih =>
    intro d hd
    rw [distinctModels] at hd
    rcases ih d hd with h | h
    · split at h
      next => exact .inl h
      next =>
        rcases List.mem_append.mp h with h | h
        · exact .inl h
        · exact .inr (List.mem_cons.mpr (.inl (List.mem_singleton.mp h)))
    · exact .inr (List.mem_cons_of_mem _ h)

/-- Texts come after all other models. -/
theorem modelBefore_of_isText (a b : Document α) (ha : Column.isText a = false)
    (hb : Column.isText b = true) : modelBefore a b = true ∧ modelBefore b a = false := by
  obtain ⟨s, rfl⟩ := Column.isText_iff.mp hb
  cases a with
  | text => cases ha
  | _ => exact ⟨rfl, rfl⟩

/-- The texts among the models are different and come after all others. -/
def TextsLast (models : List (Document α)) : Prop :=
  models.Pairwise fun a b => ∀ s, a = .text s → ∃ t, b = .text t ∧ s ≠ t

theorem textsLast_mergeSort {models : List (Document α)} (h : models.Pairwise Apart) :
    TextsLast (models.mergeSort modelBefore) := by
  have hapart : (models.mergeSort modelBefore).Pairwise Apart :=
    ((List.mergeSort_perm models modelBefore).pairwise_iff
      fun {a b} hab s hb ha => hab s ha hb).mpr h
  have hlast := pairwise_mergeSort_of_test (modelBefore_of_isText (α := α)) models
  refine hapart.imp₂ (fun a b hab htext s hs => ?_) hlast
  obtain ⟨t, ht⟩ := Column.isText_iff.mp (htext (Column.isText_iff.mpr ⟨s, hs⟩))
  exact ⟨t, ht, fun hst => hab s hs (hst ▸ ht)⟩

/-- **The models of records**: what the records name, in the form of one kind, the texts behind and
each once. -/
theorem models_spec {records : List (Record α)} {found : List (Document α)}
    (h : models records = .ok found) : TextsLast found ∧
      ∀ m ∈ found, ∃ k : Column.Kind, ∃ r ∈ records, namesModel r.model = .ok true ∧
        m = k.settle r.model := by
  unfold models at h
  obtain ⟨named, hnamed, h⟩ := exists_of_bind h
  obtain ⟨-, -, h⟩ := exists_of_bind h
  cases h
  have hsorted := textsLast_mergeSort (pairwise_distinctModels (named.map (·.model)) [] .nil)
  refine ⟨?_, fun m hm => ?_⟩
  · rw [TextsLast, Column.settled, List.pairwise_map]
    refine hsorted.imp fun {a b} hab s hs => ?_
    obtain ⟨t, ht, hst⟩ := hab s (Column.settle_eq_text.mp hs)
    exact ⟨t, Column.settle_eq_text.mpr ht, hst⟩
  · obtain ⟨d, hd, rfl⟩ := List.mem_map.mp hm
    have hd' := (mem_of_mem_distinctModels d (List.mem_mergeSort.mp hd)).resolve_left
      List.not_mem_nil
    obtain ⟨r, hr, rfl⟩ := List.mem_map.mp hd'
    obtain ⟨hmem, hname⟩ := of_mem_filterM hnamed r hr
    exact ⟨_, r, hmem, hname, rfl⟩

/-! ## 4. Records -/

/-- A record has the model of its case. -/
theorem evaluate_model [Legible α] {case : Document α} {n : Noted (Record α)}
    (h : evaluate case = .ok n) : n.value.model = (case.member? "model").getD (.text "fuzzy") := by
  unfold evaluate at h
  obtain ⟨ms, hms, h⟩ := exists_of_bind h
  obtain ⟨returned, -, h⟩ := exists_of_bind h
  obtain ⟨expected, -, h⟩ := exists_of_bind h
  obtain ⟨-, -, h⟩ := exists_of_bind h
  obtain ⟨latency, -, h⟩ := exists_of_bind h
  obtain ⟨accuracy, -, h⟩ := exists_of_bind h
  cases h
  cases case with
  | object =>
    cases hms
    rfl
  | _ => cases hms

/-- The cells of a record are those of its columns, so its model is one of them in the form of their
kind. -/
theorem aligned_spec {records found : List (Record α)} (h : aligned records = .ok found) :
    found.length = records.length ∧
      ∀ r ∈ found, ∃ k : Column.Kind, ∃ r' ∈ records, r.model = k.settle r'.model := by
  unfold aligned at h
  obtain ⟨ids, hids, h⟩ := exists_of_bind h
  obtain ⟨queries, hqueries, h⟩ := exists_of_bind h
  obtain ⟨models, hmodels, h⟩ := exists_of_bind h
  obtain ⟨-, -, hids⟩ := exists_of_bind hids
  obtain ⟨-, -, hqueries⟩ := exists_of_bind hqueries
  obtain ⟨-, -, hmodels⟩ := exists_of_bind hmodels
  cases h
  cases hids
  cases hqueries
  cases hmodels
  refine ⟨by simp, fun r hr => ?_⟩
  rw [← List.map_uncurry_zip_eq_zipWith] at hr
  obtain ⟨⟨r', id, query, model⟩, hmem, rfl⟩ := List.mem_map.mp hr
  have hmodel := (List.of_mem_zip (List.of_mem_zip (List.of_mem_zip hmem).2).2).2
  obtain ⟨d, hd, rfl⟩ := List.mem_map.mp hmodel
  obtain ⟨r'', hr'', rfl⟩ := List.mem_map.mp hd
  exact ⟨_, r'', hr'', rfl⟩

/-! ## 5. Reports -/

/-- What a report makes of the models of its cases: a record for each case, and rows for models that
are numbers or texts.  The texts come last, each once, and each is the model of a case. -/
structure Report.Lists (r : Report α) (cases : List (Document α)) : Prop where
  length : r.records.length = cases.length
  textsLast : TextsLast (r.averages.map (·.1))
  names : ∀ a ∈ r.averages, ∃ b, namesModel a.1 = .ok b
  traced : ∀ a ∈ r.averages, ∀ s, a.1 = .text s →
    ∃ c ∈ cases, (c.member? "model").getD (.text "fuzzy") = .text s

theorem namesModel_settle {k : Column.Kind} {d : Document α} {b : Bool}
    (h : namesModel d = .ok b) : ∃ b', namesModel (k.settle d) = .ok b' := by
  cases k with
  | reals => cases d <;> first | exact ⟨_, h⟩ | exact ⟨_, rfl⟩
  | texts =>
    unfold Column.Kind.settle
    dsimp only
    split
    · exact ⟨_, rfl⟩
    · exact ⟨_, h⟩
  | _ => exact ⟨_, h⟩

/-- **A report lists the models of its cases.** -/
theorem report_lists [Legible α] {cases : List (Document α)} {n : Noted (Report α)}
    (h : report cases = .ok n) : n.value.Lists cases := by
  unfold report at h
  obtain ⟨evaluated, hevaluated, h⟩ := exists_of_bind h
  obtain ⟨records, hrecords, h⟩ := exists_of_bind h
  obtain ⟨hevaluated, heach⟩ := mapM_spec hevaluated
  obtain ⟨hlength, hmodel⟩ := aligned_spec hrecords
  have hcases : records.length = cases.length := by
    rw [hlength, Noted.value_all, List.length_map, hevaluated]
  split at h
  next hempty =>
    cases h
    rw [List.isEmpty_iff.mp hempty] at hcases
    exact ⟨hcases, .nil, by simp, by simp⟩
  next =>
    obtain ⟨found, hfound, h⟩ := exists_of_bind h
    cases h
    obtain ⟨hlast, hmem⟩ := models_spec hfound
    refine ⟨hcases, ?_, ?_, ?_⟩
    · simpa [List.map_map, Function.comp_def] using hlast
    · rintro a ha
      obtain ⟨m, hm, rfl⟩ := List.mem_map.mp ha
      obtain ⟨k, r, -, hname, rfl⟩ := hmem m hm
      exact namesModel_settle hname
    · rintro a ha s hs
      obtain ⟨m, hm, rfl⟩ := List.mem_map.mp ha
      obtain ⟨k, r, hr, -, rfl⟩ := hmem m hm
      obtain ⟨k', r', hr', hsettle⟩ := hmodel r hr
      have htext : r'.model = .text s :=
        Column.settle_eq_text.mp (hsettle ▸ Column.settle_eq_text.mp hs)
      rw [Noted.value_all] at hr'
      obtain ⟨e, he, rfl⟩ := List.mem_map.mp hr'
      obtain ⟨c, hc, hce⟩ := heach e he
      exact ⟨c, hc, (evaluate_model hce).symm.trans htext⟩

/-- Records of which there is at least one are averaged model by model. -/
theorem report_of_models [Legible α] {cases ms : List (Document α)}
    {evaluated : List (Noted (Record α))} {records : List (Record α)}
    (hevaluated : cases.mapM evaluate = .ok evaluated)
    (hrecords : aligned (Noted.all evaluated).value = .ok records) (hne : records ≠ [])
    (hms : models records = .ok ms) : ∃ n, report cases = .ok n ∧
      n.value.averages = ms.map fun m => (m, average (records.filter fun r => r.model.same m)) := by
  have hempty : records.isEmpty = false := by simpa using hne
  unfold report
  simp only [hevaluated, hrecords, hms, hempty, bind, Except.bind]
  exact ⟨_, rfl, rfl⟩

end Graded
