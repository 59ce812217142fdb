/-
# What adding does to an engine

Adding goes on up to the first thing that is refused.  What comes before it is `admitted`, and
adding a list is adding these one after the other, all with success (`foldlM_admitted`); the rest of
what adding does follows from one thing that is accepted.

Adding what is acceptable appends it and leaves everything else alone: one rule (`rules_addRule`,
`settings_addRule`), several rules (`addRules_appends`) and several variables of new names
(`declareAll_appends`).  A ready engine therefore has exactly the variables and the rules of its
rule base (`ready_holds`).  Where something is refused, what was added before it is appended
(`addRules_extends`, `declareAll_extends`).
-/
import Graded.Proofs.Inference
import Graded.RuleBase

namespace Graded

/-- A plain rule is acceptable. -/
theorem Rule.fault?_plain (id : String) (conditions : List (String × String))
    (conclusion : Conclusion) : (Rule.plain id conditions conclusion : Rule ℝ).fault? = none :=
  Rule.fault?_eq_none_iff.mpr ⟨zero_le_one, .inl rfl⟩

/-- Every rule of a rule base is acceptable. -/
theorem RuleBase.accepted (b : RuleBase) : ∀ r ∈ (b.rules : List (Rule ℝ)), r.fault? = none := by
  cases b with
  | confidence => simp [rules, confidenceRules, Rule.fault?_plain]
  | relevance => simp [rules, relevanceRules, Rule.fault?_plain]

/-- The variables of a rule base have different names. -/
theorem RuleBase.nodup_subjects (b : RuleBase) :
    ((b.subjects : List (Variable ℝ)).map (·.name)).Nodup := by
  cases b with
  | confidence => simp [subjects, Vocabulary.similarity, Vocabulary.confidence, Vocabulary.onUnit]
  | relevance =>
    simp [subjects, Vocabulary.similarity, Vocabulary.confidence, Vocabulary.relevance,
      Vocabulary.onUnit]

namespace Engine

variable {α : Type} [Scalar α] {e e' : Engine α} {r : Rule α} {output : String}

/-! ## 1. One after the other -/

section OneByOne

variable {β : Type} (add : Engine α → β → Except (Fault α) (Engine α))

/-- Adding a list succeeds if the first thing is accepted and then the others are. -/
theorem foldlM_cons_eq_ok {x : β} {xs : List β} :
    (x :: xs).foldlM add e = .ok e' ↔ ∃ e₁, add e x = .ok e₁ ∧ xs.foldlM add e₁ = .ok e' := by
  rw [List.foldlM_cons]
  cases add e x with
  | error fault => simp [bind, Except.bind]
  | ok e₁ => simp [bind, Except.bind]

/-- Of a list of things those that are accepted, up to the first that is refused. -/
def admitted : Engine α → List β → List β
  | _, [] => []
  | e, x :: xs => match add e x with
    | .ok e => x :: admitted e xs
    | .error _ => []

/-- **Adding a list is adding what is admitted of it**, with success. -/
theorem foldlM_admitted (e : Engine α) (xs : List β) :
    (admitted add e xs).foldlM add e = .ok (each add e xs).1 := by
  induction xs generalizing e with
  | nil => rfl
  | cons x xs ih =>
    simp only [admitted, each]
    cases hx : add e x with
    | error fault => rfl
    | ok e' => exact (foldlM_cons_eq_ok add).mpr ⟨e', hx, ih e'⟩

/-- Either everything is admitted, or everything before the first that is refused. -/
theorem each_spec (e : Engine α) (xs : List β) :
    ((each add e xs).2 = none ∧ admitted add e xs = xs) ∨
    ∃ fault x after, (each add e xs).2 = some fault ∧ xs = admitted add e xs ++ x :: after ∧
      add (each add e xs).1 x = .error fault := by
  induction xs generalizing e with
  | nil => exact .inl ⟨rfl, rfl⟩
  | cons x xs ih =>
    simp only [admitted, each]
    cases hx : add e x with
    | error fault => exact .inr ⟨fault, x, xs, rfl, rfl, hx⟩
    | ok e' =>
      obtain ⟨hnone, hall⟩ | ⟨fault, y, after, hf, hxs, hy⟩ := ih e'
      · exact .inl ⟨hnone, congrArg (x :: ·) hall⟩
      · exact .inr ⟨fault, y, after, hf, congrArg (x :: ·) hxs, hy⟩

theorem admitted_initial (e : Engine α) (xs : List β) : admitted add e xs <+: xs := by
  obtain ⟨-, hall⟩ | ⟨-, x, after, -, hxs, -⟩ := each_spec add e xs
  · rw [hall]
  · exact ⟨x :: after, hxs.symm⟩

end OneByOne

/-! ## 2. Rules -/

/-- Acceptable rules are added. -/
theorem addRule_of_fault?_eq_none (h : r.fault? = none) : ∃ e', e.addRule r = .ok e' := by
  unfold addRule
  split
  · next hf =>
    rw [h] at hf
    cases hf
  · exact ⟨_, rfl⟩

/-- Only acceptable rules are added. -/
theorem fault?_of_addRule (h : e.addRule r = .ok e') : r.fault? = none := by
  unfold addRule at h
  split at h
  · cases h
  · assumption

/-- Adding a rule leaves the settings and the variables alone. -/
theorem settings_addRule (h : e.addRule r = .ok e') :
    e'.settings = e.settings ∧ e'.declared = e.declared := by
  unfold addRule at h
  split at h
  · cases h
  · cases h
    exact ⟨rfl, rfl⟩

/-- An added rule for an output comes last among the rules for it. -/
theorem rulesFor_addRule (h : e.addRule r = .ok e') (ho : r.conclusion.variableName = output) :
    e'.rulesFor output = e.rulesFor output ++ [r] := by
  rw [rulesFor, rules_addRule h, List.filter_append]
  simp [rulesFor, ho]

/-- Readings do not depend on the rules. -/
theorem fuzzify_addRule (h : e.addRule r = .ok e') (inputs : Keyed α) :
    e'.fuzzify inputs = e.fuzzify inputs := by
  simp only [fuzzify, find?, declaration?, (settings_addRule h).2]

/-- Rules that are all accepted are appended, and nothing else changes. -/
theorem rules_of_foldlM {rs : List (Rule α)} (h : rs.foldlM addRule e = .ok e') :
    e'.rules = e.rules ++ rs ∧ e'.settings = e.settings ∧ e'.declared = e.declared := by
  induction rs generalizing e with
  | nil =>
    cases h
    exact ⟨(List.append_nil _).symm, rfl, rfl⟩
  | cons r rs ih =>
    obtain ⟨e₁, hr, h⟩ := (foldlM_cons_eq_ok addRule).mp h
    obtain ⟨hrules, hsettings, hdeclared⟩ := ih h
    obtain ⟨hs, hd⟩ := settings_addRule hr
    rw [hrules, hsettings, hdeclared, rules_addRule hr, hs, hd]
    exact ⟨List.append_assoc _ _ _, rfl, rfl⟩

/-- Of rules that need not be acceptable, those before the first that is refused are appended. -/
theorem addRules_extends (rs : List (Rule α)) (e : Engine α) :
    ∃ added, added <+: rs ∧ (e.addRules rs).1.rules = e.rules ++ added ∧
      (e.addRules rs).1.settings = e.settings ∧ (e.addRules rs).1.declared = e.declared :=
  ⟨_, admitted_initial addRule e rs, rules_of_foldlM (foldlM_admitted addRule e rs)⟩

/-- **Acceptable rules are appended**, and nothing else changes. -/
theorem addRules_appends {rs : List (Rule α)} (h : ∀ r ∈ rs, r.fault? = none) (e : Engine α) :
    (e.addRules rs).1.rules = e.rules ++ rs ∧ (e.addRules rs).1.settings = e.settings ∧
      (e.addRules rs).1.declared = e.declared := by
  have hadded := rules_of_foldlM (foldlM_admitted addRule e rs)
  obtain ⟨-, hall⟩ | ⟨fault, r, after, -, hrs, hr⟩ := each_spec addRule e rs
  · rwa [hall] at hadded
  · -- none of them is refused
    have hmem : r ∈ rs := by
      rw [hrs]
      exact List.mem_append_right _ List.mem_cons_self
    obtain ⟨e', he'⟩ := addRule_of_fault?_eq_none (h r hmem)
    rw [he'] at hr
    cases hr

/-! ## 3. Variables -/

/-- A variable of a new name is appended. -/
theorem declare_of_new {d : Declared α} (h : d.name ∉ e.names) :
    ∃ e', e.declare d = .ok e' ∧ e'.declared = e.declared ++ [d] ∧ e'.settings = e.settings ∧
      e'.rules = e.rules := by
  have hn : e.declaration? d.name = none := declaration?_eq_none.mpr h
  unfold declare
  split
  · next hk =>
    rw [hn] at hk
    cases hk
  · exact ⟨_, rfl, rfl, rfl, rfl⟩

/-- **Variables of new and different names are appended**, and nothing else changes. -/
theorem declareAll_appends {ds : List (Declared α)} (e : Engine α)
    (h : (e.names ++ ds.map (·.name)).Nodup) :
    (e.declareAll ds).1.declared = e.declared ++ ds ∧
      (e.declareAll ds).1.settings = e.settings ∧ (e.declareAll ds).1.rules = e.rules := by
  induction ds generalizing e with
  | nil => exact ⟨(List.append_nil _).symm, rfl, rfl⟩
  | cons d ds ih =>
    have hd : d.name ∉ e.names := fun hmem =>
      List.disjoint_of_nodup_append h hmem List.mem_cons_self
    obtain ⟨e', he', hdeclared, hs, hr⟩ := declare_of_new hd
    have hcons : e.declareAll (d :: ds) = e'.declareAll ds := by
      simp only [declareAll, each, he']
    have hnames : e'.names ++ ds.map (·.name) = e.names ++ (d :: ds).map (·.name) := by
      simp [names, hdeclared]
    obtain ⟨hdeclared', hs', hr'⟩ := ih e' (hnames ▸ h)
    rw [hcons, hdeclared', hs', hr', hdeclared, hs, hr]
    exact ⟨List.append_assoc _ _ _, rfl, rfl⟩

/-- A variable that is accepted is appended, unless it is there already. -/
theorem declared_of_declare {d : Declared α} (h : e.declare d = .ok e') :
    ∃ added, added.Sublist [d] ∧ e'.declared = e.declared ++ added ∧
      e'.settings = e.settings ∧ e'.rules = e.rules := by
  unfold declare at h
  split at h
  · split_ifs at h
    cases h
    exact ⟨[], List.nil_sublist _, (List.append_nil _).symm, rfl, rfl⟩
  · cases h
    exact ⟨[d], List.Sublist.refl _, rfl, rfl, rfl⟩

/-- Of variables that are all accepted, some are appended. -/
theorem declared_of_foldlM {ds : List (Declared α)} (h : ds.foldlM declare e = .ok e') :
    ∃ added, added.Sublist ds ∧ e'.declared = e.declared ++ added ∧
      e'.settings = e.settings ∧ e'.rules = e.rules := by
  induction ds generalizing e with
  | nil =>
    cases h
    exact ⟨[], List.Sublist.refl _, (List.append_nil _).symm, rfl, rfl⟩
  | cons d ds ih =>
    obtain ⟨e₁, hd, h⟩ := (foldlM_cons_eq_ok declare).mp h
    obtain ⟨first, hfirst, hdeclared, hs, hr⟩ := declared_of_declare hd
    obtain ⟨added, hsub, hdeclared', hs', hr'⟩ := ih h
    rw [hdeclared', hdeclared, hs', hs, hr', hr]
    exact ⟨first ++ added, hfirst.append hsub, List.append_assoc _ _ _, rfl, rfl⟩

/-- Of variables that need not be new, some are appended. -/
theorem declareAll_extends (ds : List (Declared α)) (e : Engine α) :
    ∃ added, added.Sublist ds ∧ (e.declareAll ds).1.declared = e.declared ++ added ∧
      (e.declareAll ds).1.settings = e.settings ∧ (e.declareAll ds).1.rules = e.rules := by
  obtain ⟨added, hsub, hadded⟩ := declared_of_foldlM (foldlM_admitted declare e ds)
  exact ⟨added, hsub.trans (admitted_initial declare e ds).sublist, hadded⟩

/-! ## 4. Ready engines -/

/-- **A ready engine holds its rule base**, and nothing else. -/
theorem ready_holds (o : Settings ℝ) (b : RuleBase) :
    (ready o b).settings = o ∧ (ready o b).rules = b.rules ∧
      (ready o b).declared = b.subjects.map (⟨.vocabulary, ·⟩) := by
  have hnodup : ((empty o).names ++ (b.subjects.map fun v : Variable ℝ =>
      (⟨.vocabulary, v⟩ : Declared ℝ)).map (·.name)).Nodup := by
    simpa [names, empty, Function.comp_def, Declared.name] using b.nodup_subjects
  obtain ⟨hd, hs, hr⟩ := declareAll_appends (empty o) hnodup
  obtain ⟨hr', hs', hd'⟩ := addRules_appends b.accepted
    ((empty o).declareAll (b.subjects.map (⟨.vocabulary, ·⟩))).1
  refine ⟨hs'.trans hs, ?_, hd'.trans hd⟩
  rw [ready, hr', hr]
  rfl

/-- Where nothing is changed a rule base is built with the standard settings. -/
theorem build_of_find? {name : String} {b : RuleBase} (h : RuleBase.find? name = some b) :
    build name [] = .ok (ready (.standard : Settings ℝ) b) := by
  simp only [build, h, Settings.read_nil]
  rfl

theorem uses_ready (b : RuleBase) : (ready (.standard : Settings ℝ) b).settings.Uses .minimum
    .maximum .mamdani .maximum .centroid := by
  rw [(ready_holds _ _).1]
  exact ⟨trivial, rfl, rfl, rfl, rfl, rfl⟩

end Engine
end Graded
