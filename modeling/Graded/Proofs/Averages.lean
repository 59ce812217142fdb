/-
# Average figures

A report on evaluation cases goes through several steps that each look at all cases together: the
columns of records find their kinds, the models are listed once each, the figures of each model are
averaged over those that are there, and two of the averages are subtracted.

`Report.Summarizes` says what comes of it without those steps, from the cases alone: a record a
case, a row of averages for each model that occurs, and the difference of the models "llm" and
"fuzzy" if both occur.  A figure that is missing is no figure: precision, recall and their harmonic
mean are averaged over the cases that expect something, and where there is no such case they are
missing from the row, and then from the difference.

What the averages do not depend on is read off that formula (`report_summarizes`).  In exact
arithmetic every latency is finite, so nothing is asked of it but that it is a number.
-/
import Graded.Proofs.Columns
import Graded.Proofs.Matching
import Graded.RunRecord

namespace Graded

/-! ## 1. Evaluation cases -/

namespace Filters

/-- The filters are an object, or count as none. -/
def Proper (filters : Document ℝ) : Prop := ∃ ms, orNone filters = .object ms

/-- Between objects of filters the comparison always comes to an end. -/
theorem exists_accuracy {actual expected : Document ℝ} (ha : Proper actual)
    (he : Proper expected) : ∃ a, accuracy actual expected = .ok a := by
  obtain ⟨as, ha⟩ := ha
  obtain ⟨es, he⟩ := he
  have hone : ∀ key, ∃ verdict, compareOne (.object as) (.object es) key = .ok verdict := by
    intro key
    simp only [compareOne, value, bind, Except.bind, pure, Except.pure]
    split_ifs
    · exact ⟨_, rfl⟩
    · exact ⟨_, rfl⟩
  choose verdict hverdict using hone
  have hall : Attribute.filterKeys.mapM (compareOne (.object as) (.object es)) =
      .ok (Attribute.filterKeys.map verdict) := by
    rw [funext hverdict]
    exact List.mapM_pure
  rw [accuracy, ha, he, hall]
  simp only [bind, Except.bind, pure, Except.pure]
  split_ifs
  · exact ⟨_, rfl⟩
  · exact ⟨_, rfl⟩

end Filters

/-- An object with the members of an evaluation case: a model that is a text, a latency that is a
number, two lists of titles and two objects of filters.  A member that is missing has its default.
-/
structure EvaluationCase where
  members : Keyed (Document ℝ)
  model : String
  latency : ℝ
  returned : List (Document ℝ)
  expected : List (Document ℝ)
  model_eq : caseMember members "model" (.text "fuzzy") = .text model
  latency_eq : (caseMember members "latency_ms" (.real 0)).number = .ok latency
  returned_eq : caseMember members "returned" (.list []) = .list returned
  expected_eq : caseMember members "expected" (.list []) = .list expected
  comparable : Title.comparable returned expected = .ok ()
  parsed : Filters.Proper (caseMember members "parsed_filters" .null)
  wanted : Filters.Proper (caseMember members "expected_filters" .null)

namespace EvaluationCase

/-- The case as a document. -/
def document (c : EvaluationCase) : Document ℝ := .object c.members

/-- Something is expected, so that the case can be measured. -/
def measurable (c : EvaluationCase) : Bool := !c.expected.isEmpty

/-- The comparison of what was returned with what was expected. -/
noncomputable def metrics (c : EvaluationCase) : Metrics ℝ (Document ℝ) :=
  (measure Title.likenessOf c.returned c.expected).value

/-- The share of expected filters that are met. -/
noncomputable def accuracy (c : EvaluationCase) : ℝ :=
  (Filters.accuracy (caseMember c.members "parsed_filters" .null)
    (caseMember c.members "expected_filters" .null)).toOption.getD 1

/-- The figures of a case. -/
noncomputable def figures (c : EvaluationCase) : Figures ℝ :=
  let figure := fun (x : ℝ) => if c.measurable then some x else none
  ⟨some c.latency, figure c.metrics.precision, figure c.metrics.recalled, figure c.metrics.f1,
    some c.accuracy⟩

/-- The record of a case by itself. -/
noncomputable def record (c : EvaluationCase) : Record ℝ :=
  ⟨caseMember c.members "id" .null, caseMember c.members "query" (.text ""), .text c.model,
    c.figures, c.metrics.matrix, c.metrics.summary, c.measurable⟩

/-- What is reported about a case that cannot be measured. -/
noncomputable def notices [Legible ℝ] (c : EvaluationCase) : List Notice :=
  (measure Title.likenessOf c.returned c.expected).notices ++
    if c.measurable then []
    else [.unmeasured (caseMember c.members "id" .null).plain
      (caseMember c.members "model" .null).plain]

theorem accuracy_eq (c : EvaluationCase) :
    Filters.accuracy (caseMember c.members "parsed_filters" .null)
      (caseMember c.members "expected_filters" .null) = .ok c.accuracy := by
  obtain ⟨a, ha⟩ := Filters.exists_accuracy c.parsed c.wanted
  rw [accuracy, ha]
  rfl

/-- **Every case has a record.** -/
theorem evaluate_document [Legible ℝ] (c : EvaluationCase) :
    evaluate c.document = .ok ⟨c.record, c.notices⟩ := by
  have hmeasurable : c.measurable = c.metrics.measurable := (measurable_measure ..).symm
  simp only [evaluate, document, caseMembers, bind, Except.bind, c.returned_eq, c.expected_eq,
    Document.items, c.comparable, c.latency_eq, c.accuracy_eq, c.model_eq, pure, Except.pure]
  rw [record, figures, notices, hmeasurable, metrics]

end EvaluationCase

variable {cases others : List EvaluationCase} {m : String} {r r' : Report ℝ}

/-! ## 2. Rows -/

/-- The records of all cases, with ids and queries in the form that their columns have. -/
noncomputable def rows (cases : List EvaluationCase) : List (Record ℝ) :=
  let ids := Column.Kind.of (cases.map (·.record.id))
  let queries := Column.Kind.of (cases.map (·.record.query))
  cases.map fun c =>
    { c.record with id := ids.settle c.record.id, query := queries.settle c.record.query }

theorem aligned_eq (cases : List EvaluationCase) :
    aligned (cases.map (·.record)) = .ok (rows cases) := by
  -- ids and queries may be anything, but models are texts and keep their form
  have hmodels : Column.settled (cases.map (·.record.model)) = cases.map (·.record.model) :=
    Column.settled_texts fun d hd => by
      obtain ⟨c, -, rfl⟩ := List.mem_map.mp hd
      rfl
  simp only [aligned, Column.check_eq, List.map_map, Function.comp_def, hmodels, bind,
    Except.bind, pure, Except.pure]
  rw [Column.settled, Column.settled, List.map_map, List.map_map, List.zip_map', List.zip_map',
    List.zipWith_map, List.zipWith_self]
  rfl

/-! ## 3. Averages -/

/-- The mean, missing where there is nothing to average. -/
noncomputable def meanOf (xs : List ℝ) : Figure ℝ :=
  if xs.isEmpty then none else some (xs.sum / xs.length)

theorem meanOf_perm {xs ys : List ℝ} (h : xs.Perm ys) : meanOf xs = meanOf ys := by
  rw [meanOf, meanOf, h.isEmpty_eq, h.sum_eq, h.length_eq]

/-- **Averages are taken over the figures that are there.** -/
theorem averageOf_ite {β : Type} (p : β → Bool) (figure : β → ℝ) (l : List β) :
    averageOf (l.map fun x => if p x then some (figure x) else none) =
      meanOf ((l.filter p).map figure) := by
  have hpresent : present (l.map fun x => if p x then some (figure x) else none) =
      (l.filter p).map figure := by
    induction l with
    | nil => rfl
    | cons x l ih => cases h : p x <;> simp_all [present]
  rw [averageOf, hpresent, meanOf, Scalar.mean_eq]

/-- The average figures of cases: latency and accuracy over all of them, the rest over those that
can be measured. -/
noncomputable def averagesOf (cases : List EvaluationCase) : Figures ℝ :=
  let of := fun (figure : EvaluationCase → ℝ) => meanOf (cases.map figure)
  let ofMeasurable := fun (figure : EvaluationCase → ℝ) =>
    meanOf ((cases.filter (·.measurable)).map figure)
  ⟨of (·.latency), ofMeasurable (·.metrics.precision), ofMeasurable (·.metrics.recalled),
    ofMeasurable (·.metrics.f1), of (·.accuracy)⟩

/-- The cases of one model. -/
def ofModel (m : String) (cases : List EvaluationCase) : List EvaluationCase :=
  cases.filter (·.model == m)

theorem averagesOf_perm (h : cases.Perm others) : averagesOf cases = averagesOf others := by
  simp only [averagesOf, meanOf_perm (h.map _), meanOf_perm ((h.filter _).map _)]

/-- The records of a model have the averages of its cases. -/
theorem average_rows (cases : List EvaluationCase) (m : String) :
    average ((rows cases).filter fun r => r.model.same (.text m)) =
      averagesOf (ofModel m cases) := by
  have hmodel : ∀ c : EvaluationCase, c.record.model.same (.text m) = (c.model == m) := by
    simp [EvaluationCase.record, Document.same]
  have hall : ∀ (figure : EvaluationCase → ℝ) (l : List EvaluationCase),
      averageOf (l.map fun c => some (figure c)) = meanOf (l.map figure) := fun figure l => by
    simpa using averageOf_ite (fun _ => true) figure l
  rw [rows, List.filter_map]
  simp only [Function.comp_def, hmodel, average, List.map_map]
  simp only [EvaluationCase.record, EvaluationCase.figures, hall, averageOf_ite]
  rfl

/-! ## 4. Reports -/

/-- The model occurs in the cases. -/
def occurs (m : String) (cases : List EvaluationCase) : Bool := cases.any (·.model == m)

theorem occurs_iff : occurs m cases ↔ m ∈ cases.map (·.model) := by
  simp [occurs]

/-- The row of a model: its averages, if it occurs. -/
noncomputable def rowOf (m : String) (cases : List EvaluationCase) : Option (Figures ℝ) :=
  if occurs m cases then some (averagesOf (ofModel m cases)) else none

/-- What a report says about cases. -/
structure Report.Summarizes (r : Report ℝ) (cases : List EvaluationCase) : Prop where
  /-- one record a case, in order -/
  records : r.records = rows cases
  /-- one row for each model that occurs, in the order of the alphabet -/
  averages : ∃ names : List String, names.Pairwise (· < ·) ∧ (∀ m, m ∈ names ↔ occurs m cases) ∧
    r.averages = names.map fun m => (.text m, averagesOf (ofModel m cases))
  /-- a difference if both models occur, and then that of their rows -/
  difference : r.difference =
    if occurs "llm" cases && occurs "fuzzy" cases then
      some ((averagesOf (ofModel "llm" cases)).minus (averagesOf (ofModel "fuzzy" cases)))
    else none

theorem figuresOf_map (names : List String) (f : String → Figures ℝ) (m : String) :
    figuresOf m (names.map fun n => (.text n, f n)) = if m ∈ names then some (f m) else none := by
  induction names with
  | nil => rfl
  | cons n names ih =>
    have hsame : (Document.text n : Document ℝ).same (.text m) = (n == m) := by
      simp [Document.same]
    rw [figuresOf] at ih ⊢
    rw [List.map_cons, List.find?_cons, hsame]
    by_cases h : n = m
    · simp [h]
    · have hm : m ≠ n := fun h' => h h'.symm
      simp only [beq_eq_false_iff_ne.mpr h, ih, List.mem_cons, hm, false_or]

/-- **What a report is**: cases of which there is at least one always have a report, and it
summarizes them. -/
theorem exists_report [Legible ℝ] (h : cases ≠ []) :
    ∃ n, report (cases.map (·.document)) = .ok n ∧ n.value.Summarizes cases := by
  have heach : (cases.map (·.document)).mapM evaluate =
      .ok (cases.map fun c => ⟨c.record, c.notices⟩) := by
    rw [List.mapM_map]
    simp only [Function.comp_def, EvaluationCase.evaluate_document]
    exact List.mapM_pure
  have hempty : (rows cases).isEmpty = false := by simpa [rows] using h
  have hmodels : (rows cases).map (·.model) = (cases.map (·.model)).map .text := by
    rw [rows, List.map_map, List.map_map]
    rfl
  obtain ⟨names, hnames, hascending, hmem⟩ := models_eq hmodels
  simp only [report, heach, bind, Except.bind, Noted.value_all, List.map_map, Function.comp_def,
    aligned_eq, hempty, hnames, average_rows, pure, Except.pure]
  refine ⟨_, rfl, rfl, ⟨names, hascending, fun m => by rw [hmem, occurs_iff], rfl⟩, ?_⟩
  -- the program looks the two models up among the rows, whichever models these are
  simp only [figuresOf_map, hmem, ← occurs_iff]
  cases occurs "llm" cases <;> cases occurs "fuzzy" cases <;> rfl

/-! ## 5. What averages depend on -/

/-- The figures of a model are those of its row. -/
theorem Report.Summarizes.figuresOf_eq (h : r.Summarizes cases) (m : String) :
    figuresOf m r.averages = rowOf m cases := by
  obtain ⟨names, -, hmem, haverages⟩ := h.averages
  rw [haverages, figuresOf_map, rowOf]
  simp only [hmem]

theorem occurs_iff_ofModel : occurs m cases ↔ ofModel m cases ≠ [] := by
  simp [occurs, ofModel]

/-- **A row depends on the cases of its model only**, and not on their order. -/
theorem rowOf_congr (h : (ofModel m cases).Perm (ofModel m others)) :
    rowOf m cases = rowOf m others := by
  have hoccurs : occurs m cases = occurs m others := by
    rw [Bool.eq_iff_iff, occurs_iff_ofModel, occurs_iff_ofModel, ne_eq, ne_eq,
      ← List.length_eq_zero_iff, h.length_eq, List.length_eq_zero_iff]
  rw [rowOf, rowOf, hoccurs, averagesOf_perm h]

/-- A case is no case of another model. -/
theorem ofModel_insert {c : EvaluationCase} (h : c.model ≠ m)
    (before after : List EvaluationCase) :
    ofModel m (before ++ c :: after) = ofModel m (before ++ after) := by
  simp [ofModel, h]

/-- Reports on the same cases in different orders have the same averages, in the same order. -/
theorem Report.Summarizes.averages_perm (h : cases.Perm others) (hr : r.Summarizes cases)
    (hr' : r'.Summarizes others) : r.averages = r'.averages := by
  obtain ⟨names, hnames, hmem, haverages⟩ := hr.averages
  obtain ⟨names', hnames', hmem', haverages'⟩ := hr'.averages
  have hsame : names = names' := by
    refine hnames.eq_of_mem_iff hnames' fun m => ?_
    rw [hmem, hmem', occurs_iff, occurs_iff, (h.map _).mem_iff]
  have hof : ∀ m, averagesOf (ofModel m cases) = averagesOf (ofModel m others) :=
    fun m => averagesOf_perm (h.filter _)
  rw [haverages, haverages', hsame]
  simp only [hof]

/-- The difference is that of two rows. -/
theorem Report.Summarizes.difference_eq (h : r.Summarizes cases) :
    r.difference = Option.map₂ Figures.minus (rowOf "llm" cases) (rowOf "fuzzy" cases) := by
  rw [h.difference, rowOf, rowOf]
  cases occurs "llm" cases <;> cases occurs "fuzzy" cases <;> rfl

/-! ## 6. Two models in each other's place -/

/-- The other one of the two models that are compared. -/
def otherModel (m : String) : String :=
  if m = "llm" then "fuzzy" else if m = "fuzzy" then "llm" else m

theorem otherModel_involutive : Function.Involutive otherModel := by
  intro m
  unfold otherModel
  split_ifs <;> simp_all

/-- Writing one member leaves the others. -/
theorem caseMember_put {key other : String} (h : other ≠ key) (value : Document ℝ)
    (members : Keyed (Document ℝ)) (missing : Document ℝ) :
    caseMember (Keyed.put key value members) other missing = caseMember members other missing := by
  rw [caseMember, caseMember, Keyed.lookup_put_of_ne value members h]

/-- The same case as one of the other model. -/
def EvaluationCase.relabelled (c : EvaluationCase) : EvaluationCase where
  members := Keyed.put "model" (.text (otherModel c.model)) c.members
  model := otherModel c.model
  latency := c.latency
  returned := c.returned
  expected := c.expected
  model_eq := by rw [caseMember, Keyed.lookup_put_self]; rfl
  latency_eq := by rw [caseMember_put (by decide), c.latency_eq]
  returned_eq := by rw [caseMember_put (by decide), c.returned_eq]
  expected_eq := by rw [caseMember_put (by decide), c.expected_eq]
  comparable := c.comparable
  parsed := by rw [caseMember_put (by decide)]; exact c.parsed
  wanted := by rw [caseMember_put (by decide)]; exact c.wanted

theorem EvaluationCase.accuracy_relabelled (c : EvaluationCase) :
    c.relabelled.accuracy = c.accuracy := by
  rw [accuracy, accuracy, relabelled, caseMember_put (by decide), caseMember_put (by decide)]

/-- Who is said to have made a case does not change its figures. -/
theorem averagesOf_relabelled (cases : List EvaluationCase) :
    averagesOf (cases.map (·.relabelled)) = averagesOf cases := by
  have hmeasurable : (cases.map (·.relabelled)).filter (·.measurable) =
      (cases.filter (·.measurable)).map (·.relabelled) := List.filter_map
  simp only [averagesOf, hmeasurable, List.map_map, Function.comp_def,
    EvaluationCase.accuracy_relabelled]
  rfl

theorem ofModel_relabelled (cases : List EvaluationCase) (m : String) :
    ofModel m (cases.map (·.relabelled)) =
      (ofModel (otherModel m) cases).map (·.relabelled) := by
  have hmodel : ∀ c : EvaluationCase,
      (c.relabelled.model == m) = (c.model == otherModel m) := fun c => by
    rw [Bool.eq_iff_iff, beq_iff_eq, beq_iff_eq]
    exact otherModel_involutive.eq_iff
  rw [ofModel, List.filter_map]
  simp only [Function.comp_def, hmodel]
  rfl

/-- **The two models change rows.** -/
theorem rowOf_relabelled (cases : List EvaluationCase) (m : String) :
    rowOf m (cases.map (·.relabelled)) = rowOf (otherModel m) cases := by
  have hoccurs : occurs m (cases.map (·.relabelled)) = occurs (otherModel m) cases := by
    rw [Bool.eq_iff_iff, occurs_iff_ofModel, occurs_iff_ofModel, ofModel_relabelled]
    simp
  rw [rowOf, rowOf, hoccurs, ofModel_relabelled, averagesOf_relabelled]

/-- Figures with the opposite sign; what is missing stays so. -/
noncomputable def Figures.negated (f : Figures ℝ) : Figures ℝ :=
  let opposite := fun (x : Figure ℝ) => x.map fun y => -y
  ⟨opposite f.latency, opposite f.precision, opposite f.recalled, opposite f.f1,
    opposite f.accuracy⟩

theorem differenceOf_swap (a b : Figure ℝ) :
    differenceOf b a = (differenceOf a b).map fun x => -x := by
  cases a <;> cases b <;> simp [differenceOf]

theorem Figures.minus_swap (f g : Figures ℝ) : g.minus f = (f.minus g).negated := by
  rw [minus, minus, negated, differenceOf_swap f.latency, differenceOf_swap f.precision,
    differenceOf_swap f.recalled, differenceOf_swap f.f1, differenceOf_swap f.accuracy]

/-- **The difference changes its sign with the two models.** -/
theorem Report.Summarizes.difference_relabelled (h : r.Summarizes cases)
    (h' : r'.Summarizes (cases.map (·.relabelled))) :
    r'.difference = r.difference.map Figures.negated := by
  rw [h.difference_eq, h'.difference_eq, rowOf_relabelled, rowOf_relabelled]
  change Option.map₂ _ (rowOf "fuzzy" cases) (rowOf "llm" cases) = _
  cases rowOf "llm" cases with
  | none => rw [Option.map₂_none_right]; rfl
  | some f =>
    cases rowOf "fuzzy" cases with
    | none => rfl
    | some g => exact congrArg some (Figures.minus_swap f g)

/-! ## 7. The laws of a report -/

/-- The record of a run counts the cases that expect nothing. -/
theorem Report.Summarizes.unmeasurable_eq [Legible ℝ] (h : r.Summarizes cases)
    (path : Option String) (created : String) :
    (RunRecord.ofReport r path created).lookup "n_unmeasurable" =
      some (.integer (cases.countP (·.expected.isEmpty))) := by
  have hcount : RunRecord.unmeasurable r.records = cases.countP (·.expected.isEmpty) := by
    rw [RunRecord.unmeasurable, h.records, rows, List.countP_map]
    exact List.countP_congr fun c _ => by
      simp [EvaluationCase.record, EvaluationCase.measurable]
  rw [← hcount]
  rfl

/-- **Reports summarize their cases.** -/
theorem report_summarizes [Legible ℝ] {cases : List EvaluationCase} (h : cases ≠ []) :
    ∃ n, report (cases.map (·.document)) = .ok n ∧ n.value.Summarizes cases ∧
      (∀ others : List EvaluationCase, others.Perm cases →
        ∃ n', report (others.map (·.document)) = .ok n' ∧
          n'.value.averages = n.value.averages ∧ n'.value.difference = n.value.difference) ∧
      (∀ (c : EvaluationCase) m before after, cases = before ++ after → c.model ≠ m →
        ∃ n', report ((before ++ c :: after).map (·.document)) = .ok n' ∧
          figuresOf m n'.value.averages = figuresOf m n.value.averages) ∧
      (∃ n', report ((cases.map (·.relabelled)).map (·.document)) = .ok n' ∧
        n'.value.difference = n.value.difference.map Figures.negated) ∧
      ∀ path created, (RunRecord.ofReport n.value path created).lookup "n_unmeasurable" =
        some (.integer (cases.countP (·.expected.isEmpty))) := by
  obtain ⟨n, hn, hsum⟩ := exists_report h
  refine ⟨n, hn, hsum, fun others hperm => ?_, fun c m before after hcases hc => ?_, ?_,
    hsum.unmeasurable_eq⟩
  · have hne : others ≠ [] := fun hnil => h (List.nil_perm.mp (hnil ▸ hperm))
    obtain ⟨n', hn', hsum'⟩ := exists_report hne
    refine ⟨n', hn', hsum'.averages_perm hperm hsum, ?_⟩
    rw [hsum'.difference_eq, hsum.difference_eq, rowOf_congr (hperm.filter _),
      rowOf_congr (hperm.filter _)]
  · have hne : before ++ c :: after ≠ [] := by simp
    obtain ⟨n', hn', hsum'⟩ := exists_report hne
    refine ⟨n', hn', ?_⟩
    rw [hsum'.figuresOf_eq, hsum.figuresOf_eq, hcases]
    exact rowOf_congr (.of_eq (ofModel_insert hc before after))
  · have hne : cases.map (·.relabelled) ≠ [] := by simpa using h
    obtain ⟨n', hn', hsum'⟩ := exists_report hne
    exact ⟨n', hn', hsum.difference_relabelled hsum'⟩

/-- A case of which nothing is known but who made it, in what time, and with what titles. -/
@[simps]
def EvaluationCase.ofTitles (model : String) (latency : ℝ) (returned expected : List String) :
    EvaluationCase where
  members := [("model", .text model), ("latency_ms", .real latency),
    ("returned", .list (returned.map .text)), ("expected", .list (expected.map .text))]
  model := model
  latency := latency
  returned := returned.map .text
  expected := expected.map .text
  model_eq := rfl
  latency_eq := rfl
  returned_eq := rfl
  expected_eq := rfl
  comparable := by simp [Title.comparable, Title.isText]
  parsed := ⟨[], rfl⟩
  wanted := ⟨[], rfl⟩

theorem EvaluationCase.accuracy_ofTitles (model : String) (latency : ℝ)
    (returned expected : List String) : (ofTitles model latency returned expected).accuracy = 1 :=
  rfl

/-- One model is slower and returns nothing where something is expected; of the other nothing is
expected, so that they differ in nothing but the time. -/
theorem report_summarizes_two : ∃ _ : Legible ℝ, ∃ n,
    report ([EvaluationCase.ofTitles "llm" 0.9 [] ["Lake walk"],
      .ofTitles "fuzzy" 0.3 ["Museum"] []].map (·.document)) = .ok n ∧
      n.value.difference = some ⟨some 0.6, none, none, none, some 0⟩ ∧
      (RunRecord.ofReport n.value none "").lookup "n_unmeasurable" = some (.integer 1) := by
  let legible : Legible ℝ := ⟨fun _ => "", fun _ _ => ""⟩
  have hne : [EvaluationCase.ofTitles "llm" 0.9 [] ["Lake walk"],
      .ofTitles "fuzzy" 0.3 ["Museum"] []] ≠ [] := List.cons_ne_nil _ _
  obtain ⟨n, hn, hsum, -, -, -, hunmeasurable⟩ := report_summarizes hne
  refine ⟨legible, n, hn, ?_, hunmeasurable none ""⟩
  have htime : (0.9 : ℝ) - 0.3 = 0.6 := by norm_num
  simp [hsum.difference, occurs, ofModel, averagesOf, meanOf, Figures.minus, differenceOf,
    EvaluationCase.measurable, EvaluationCase.accuracy_ofTitles, htime]

end Graded
