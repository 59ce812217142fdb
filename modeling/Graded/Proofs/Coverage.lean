/-
# What the rules of relevance cover

The engine that turns similarity and confidence into relevance has a rule for every band of
similarity.  The rules of the two upper bands ask for a confidence as well, and there is no rule for
the confidences that they do not ask for (`Covered`):

* below a similarity of 0.7 some rule fires, whatever the confidence is;
* a strong match needs a confidence that is high or low, and an exact match one that is very high.

Where no rule fires the answer is the middle of the domain (`infer_relevance`).  A perfect match of
confidence 0.7 is such a case (`not_relevance_covers`).

The shapes are positive on open intervals, and the minimum of degrees is positive exactly if all of
them are (`Rule.exactStrength_pos_iff`), so that every rule covers a rectangle.
-/
import Graded.Proofs.Engine
import Graded.Proofs.Fallback
import Graded.Proofs.Shape

namespace Graded

/-! ## 1. Rules under the minimum -/

/-- The minimum of degrees is positive exactly if all of them are. -/
theorem TNorm.foldl_minimum_pos_iff {degrees : List ℝ} {a : ℝ} :
    0 < degrees.foldl TNorm.minimum.value a ↔ 0 < a ∧ ∀ mu ∈ degrees, 0 < mu := by
  induction degrees generalizing a with
  | nil => simp
  | cons mu degrees ih =>
    rw [List.foldl_cons, ih, value, Scalar.least_eq_min, lt_min_iff, List.forall_mem_cons,
      and_assoc]

/-- **A rule fires exactly if all of its conditions hold to some extent.** -/
theorem Rule.exactStrength_pos_iff {r : Rule ℝ} {s : TConorm} {readings : Readings ℝ}
    (hc : r.connective = .and) (hw : 0 < r.weight) :
    0 < r.exactStrength .minimum s readings ↔ ∀ c ∈ r.conditions, 0 < c.degree readings := by
  rw [exactStrength, mul_pos_iff_of_pos_right hw, joined, hc]
  dsimp only
  rw [TNorm.foldl_minimum_pos_iff, and_iff_right zero_lt_one, degrees, List.forall_mem_map]

/-- So does a plain rule, whose weight is 1. -/
theorem Rule.exactStrength_plain_pos_iff {id : String} {conditions : List (String × String)}
    {conclusion : Conclusion} {s : TConorm} {readings : Readings ℝ} :
    0 < (plain id conditions conclusion).exactStrength .minimum s readings ↔
      ∀ c ∈ conditions, 0 < (⟨c.1, c.2, false⟩ : Condition).degree readings := by
  rw [exactStrength_pos_iff rfl zero_lt_one, plain, List.forall_mem_map]

/-- A plain condition reads the degree of the input in its set. -/
theorem Condition.degree_of_given {e : Engine ℝ} {inputs : Keyed ℝ} {v : Variable ℝ}
    {name setName : String} {x : ℝ} (hv : e.find? name = some v)
    (hx : inputs.lookup name = some x) :
    (⟨name, setName, false⟩ : Condition).degree (e.fuzzify inputs) = v.degreeAt setName x := by
  rw [degree, Engine.lookup_fuzzify, hv, hx, ← Variable.degreeOf_fuzzify]
  rfl

/-! ## 2. The engine -/

namespace Engine

/-- The engine that turns similarity and confidence into relevance. -/
noncomputable def relevance : Engine ℝ := .ready .standard .relevance

theorem build_relevance : build "relevance" [] = .ok relevance := build_of_find? rfl

theorem uses_relevance :
    relevance.settings.Uses .minimum .maximum .mamdani .maximum .centroid := uses_ready _

/-- All of its rules are rules for relevance. -/
theorem rulesFor_relevance : relevance.rulesFor "relevance" = RuleBase.relevanceRules := by
  rw [rulesFor, relevance, (ready_holds _ _).2.1]
  rfl

/-- The variables are found by their names. -/
theorem find?_relevance :
    relevance.find? "similarity" = some Vocabulary.similarity ∧
      relevance.find? "confidence" = some Vocabulary.confidence ∧
      relevance.find? "relevance" = some Vocabulary.relevance := by
  simp only [find?, declaration?, relevance, (ready_holds _ _).2.2]
  exact ⟨rfl, rfl, rfl⟩

/-- A similarity and a confidence as inputs. -/
def matched (s c : ℝ) : Keyed ℝ := [("similarity", s), ("confidence", c)]

theorem degree_similarity (setName : String) (s c : ℝ) :
    (⟨"similarity", setName, false⟩ : Condition).degree (relevance.fuzzify (matched s c)) =
      (Vocabulary.similarity : Variable ℝ).degreeAt setName s :=
  Condition.degree_of_given find?_relevance.1 rfl

theorem degree_confidence (setName : String) (s c : ℝ) :
    (⟨"confidence", setName, false⟩ : Condition).degree (relevance.fuzzify (matched s c)) =
      (Vocabulary.confidence : Variable ℝ).degreeAt setName c :=
  Condition.degree_of_given find?_relevance.2.1 rfl

/-! ## 3. What is covered -/

/-- The similarities and confidences at which some rule of relevance fires. -/
def Covered (s c : ℝ) : Prop :=
  s < 0.7 ∨ (s < 0.9 ∧ (0.1 < c ∧ c < 0.4 ∨ 0.6 < c ∧ c < 0.9)) ∨ (0.8 < s ∧ 0.75 < c)

/-- Where a similarity is in a set of its variable. -/
theorem similarity_pos (s : ℝ) :
    (0 < (Vocabulary.similarity : Variable ℝ).degreeAt "no_match" s ↔ s < 0.3) ∧
    (0 < (Vocabulary.similarity : Variable ℝ).degreeAt "weak_match" s ↔ 0.2 < s ∧ s < 0.5) ∧
    (0 < (Vocabulary.similarity : Variable ℝ).degreeAt "partial_match" s ↔ 0.4 < s ∧ s < 0.7) ∧
    (0 < (Vocabulary.similarity : Variable ℝ).degreeAt "strong_match" s ↔ 0.6 < s ∧ s < 0.9) ∧
    (0 < (Vocabulary.similarity : Variable ℝ).degreeAt "exact_match" s ↔ 0.8 < s) :=
  ⟨Shape.degree_leftShoulder_pos_iff (by norm_num),
    Shape.degree_triangular_pos_iff (by norm_num) (by norm_num),
    Shape.degree_triangular_pos_iff (by norm_num) (by norm_num),
    Shape.degree_triangular_pos_iff (by norm_num) (by norm_num),
    Shape.degree_rightShoulder_pos_iff (by norm_num)⟩

/-- Where a confidence is in one of the sets that the rules of relevance ask for. -/
theorem confidence_pos (c : ℝ) :
    (0 < (Vocabulary.confidence : Variable ℝ).degreeAt "low" c ↔ 0.1 < c ∧ c < 0.4) ∧
    (0 < (Vocabulary.confidence : Variable ℝ).degreeAt "high" c ↔ 0.6 < c ∧ c < 0.9) ∧
    (0 < (Vocabulary.confidence : Variable ℝ).degreeAt "very_high" c ↔ 0.75 < c) :=
  ⟨Shape.degree_triangular_pos_iff (by norm_num) (by norm_num),
    Shape.degree_triangular_pos_iff (by norm_num) (by norm_num),
    Shape.degree_rightShoulder_pos_iff (by norm_num)⟩

/-- **Some rule of relevance fires exactly where the rules cover.** -/
theorem fires_relevance_iff (s c : ℝ) :
    (∃ r ∈ relevance.rulesFor "relevance",
      0 < r.exactStrength .minimum .maximum (relevance.fuzzify (matched s c))) ↔ Covered s c := by
  obtain ⟨hno, hweak, hhalf, hstrong, hfull⟩ := similarity_pos s
  obtain ⟨hlow, hhigh, hveryHigh⟩ := confidence_pos c
  rw [rulesFor_relevance]
  simp only [RuleBase.relevanceRules, List.exists_mem_cons_iff, List.not_mem_nil, false_and,
    exists_false, or_false, Rule.exactStrength_plain_pos_iff, List.forall_mem_cons,
    IsEmpty.forall_iff, implies_true, and_true, degree_similarity, degree_confidence, hno, hweak,
    hhalf, hstrong, hfull, hlow, hhigh, hveryHigh, Covered]
  constructor
  · rintro (h | h | h | h | h | h | h)
    · exact .inr (.inr h)
    · exact .inr (.inl ⟨h.1.2, .inr h.2⟩)
    · exact .inl h.2
    · exact .inl (h.2.trans (by norm_num))
    · exact .inl (h.trans (by norm_num))
    · exact .inl h.1.2
    · exact .inr (.inl ⟨h.1.2, .inl h.2⟩)
  · intro hcovered
    -- below 0.7 a rule that asks for no confidence fires
    rcases lt_or_ge s 0.3 with h3 | h3
    · exact .inr (.inr (.inr (.inr (.inl h3))))
    rcases lt_or_ge s 0.5 with h5 | h5
    · exact .inr (.inr (.inr (.inl ⟨by linarith, h5⟩)))
    rcases lt_or_ge s 0.7 with h7 | h7
    · exact .inr (.inr (.inl ⟨by linarith, h7⟩))
    rcases hcovered with h | ⟨h9, hc | hc⟩ | h
    · exact absurd h h7.not_gt
    · exact .inr (.inr (.inr (.inr (.inr (.inr ⟨⟨by linarith, h9⟩, hc⟩)))))
    · exact .inr (.inl ⟨⟨by linarith, h9⟩, hc⟩)
    · exact .inl h

/-! ## 4. What is answered -/

/-- Every hundredth is one of the points at which relevance is sampled. -/
theorem hundredth_mem_points {i : ℕ} (h : i ≤ 100) :
    (i : ℝ) / 100 ∈ (Vocabulary.relevance : Variable ℝ).points relevance.settings.resolution := by
  have hpoints : (Vocabulary.relevance : Variable ℝ).points 100 =
      (List.range 101).map fun i : ℕ => (i : ℝ) / (100 : ℕ) :=
    Scalar.grid_unit (n := 100) (by decide)
  rw [relevance, (ready_holds _ _).1]
  change (i : ℝ) / 100 ∈ (Vocabulary.relevance : Variable ℝ).points 100
  rw [hpoints]
  exact List.mem_map.mpr ⟨i, List.mem_range.mpr (by omega), by norm_num⟩

/-- Every set that a rule of relevance concludes on is seen at one of these points. -/
theorem exists_point_relevance {r : Rule ℝ} (h : r ∈ relevance.rulesFor "relevance") :
    ∃ i : ℕ, i ≤ 100 ∧
      0 < (Vocabulary.relevance : Variable ℝ).degreeAt r.conclusion.setName ((i : ℝ) / 100) := by
  rw [rulesFor_relevance] at h
  simp only [RuleBase.relevanceRules, List.mem_cons, List.not_mem_nil, or_false] at h
  rcases h with rfl | rfl | rfl | rfl | rfl | rfl | rfl
  · refine ⟨100, by decide, (Shape.degree_rightShoulder_pos_iff ?_).mpr ?_⟩ <;> norm_num
  · refine ⟨80, by decide, (Shape.degree_triangular_pos_iff ?_ ?_).mpr ?_⟩ <;> norm_num
  · refine ⟨60, by decide, (Shape.degree_triangular_pos_iff ?_ ?_).mpr ?_⟩ <;> norm_num
  · refine ⟨40, by decide, (Shape.degree_triangular_pos_iff ?_ ?_).mpr ?_⟩ <;> norm_num
  · refine ⟨0, by decide, (Shape.degree_leftShoulder_pos_iff ?_).mpr ?_⟩ <;> norm_num
  · refine ⟨80, by decide, (Shape.degree_triangular_pos_iff ?_ ?_).mpr ?_⟩ <;> norm_num
  · refine ⟨60, by decide, (Shape.degree_triangular_pos_iff ?_ ?_).mpr ?_⟩ <;> norm_num

/-- The rules are listed in the answer with the strengths at which they fire. -/
theorem exists_fired_iff {e : Engine ℝ} {t : TNorm ℝ} {s : TConorm} {i : Implication}
    {a : Accumulation} {z : Defuzzifier} {v : Variable ℝ} {inputs : Keyed ℝ} {output : String}
    {n : Noted (Inference ℝ)} (hu : e.settings.Uses t s i a z) (hv : e.find? output = some v)
    (hsets : ∀ r ∈ e.rulesFor output, (v.set? r.conclusion.setName).isSome)
    (hn : e.infer inputs output = .ok n) :
    (∃ f ∈ n.value.fired, 0 < f.2) ↔
      ∃ r ∈ e.rulesFor output, 0 < r.exactStrength t s (e.fuzzify inputs) := by
  obtain ⟨c, -, -, hinfer⟩ := infer_eq hu hv inputs (concludes_of_sets hsets)
  rw [hinfer] at hn
  cases hn
  simp [exactFired]

/-- **What is answered where the rules cover, and where they do not.** -/
theorem infer_relevance (s c : ℝ) :
    ∃ n, relevance.infer (matched s c) "relevance" = .ok n ∧
      ((∃ f ∈ n.value.fired, 0 < f.2) ↔ Covered s c) ∧
      (Inference.FallsBack Vocabulary.relevance "relevance" n ↔ ¬ Covered s c) ∧
      (Covered s c → n.notices = []) := by
  have hu := uses_relevance
  have hv := find?_relevance.2.2
  have hsets : ∀ r ∈ relevance.rulesFor "relevance",
      ((Vocabulary.relevance : Variable ℝ).set? r.conclusion.setName).isSome := by
    intro r hr
    rw [rulesFor_relevance] at hr
    simp only [RuleBase.relevanceRules, List.mem_cons, List.not_mem_nil, or_false] at hr
    rcases hr with rfl | rfl | rfl | rfl | rfl | rfl | rfl <;> rfl
  have hin := relevance.inUnit_fuzzify (matched s c)
  obtain ⟨n, hn, -, hquiet, hback⟩ := infer_fallsBack hu hv hsets (matched s c)
  have hmild : ∀ f ∈ relevance.exactFirings .minimum .maximum (relevance.fuzzify (matched s c))
      "relevance", 0 ≤ f.strength ∧ (Implication.Tolerant .mamdani .maximum ∨ f.strength ≤ 1) :=
    fun f hf => ⟨strength_nonneg_of_mem hu.proper hin hf, .inl trivial⟩
  have hcovers : Inference.FallsBack Vocabulary.relevance "relevance" n ↔ ¬ Covered s c := by
    rw [hback, ← fires_relevance_iff]
    constructor
    · rintro hnone ⟨r, hr, hfires⟩
      -- the set that the rule concludes on is not missed by the grid
      obtain ⟨i, hi, hseen⟩ := exists_point_relevance hr
      refine (hnone _ (hundredth_mem_points hi)).not_gt ((support_pos_iff hmild).mpr ?_)
      exact ⟨_, List.mem_map_of_mem hr, hfires.ne', hseen.ne'⟩
    · intro hnone x _
      refine (support_eq_zero fun f hf => le_antisymm ?_ (hmild f hf).1).le
      obtain ⟨r, hr, rfl⟩ := List.mem_map.mp hf
      exact not_lt.mp fun hfires => hnone ⟨r, hr, hfires⟩
  refine ⟨n, hn, ?_, hcovers, fun hcovered => ?_⟩
  · rw [exists_fired_iff hu hv hsets hn, fires_relevance_iff]
  · exact hquiet.resolve_right fun h => hcovers.mp h hcovered

/-- **Where relevance has a rule**: exactly on the covered similarities and confidences does some
rule fire, and everywhere else the answer is the middle of the domain. -/
theorem relevance_covers_iff (s c : ℝ) :
    ∃ (e : Engine ℝ) (n : Noted (Inference ℝ)), build "relevance" [] = .ok e ∧
      e.infer [("similarity", s), ("confidence", c)] "relevance" = .ok n ∧
      ((∃ f ∈ n.value.fired, 0 < f.2) ↔ Covered s c) ∧
      (Inference.FallsBack Vocabulary.relevance "relevance" n ↔ ¬ Covered s c) ∧
      (Covered s c → n.notices = []) := by
  obtain ⟨n, hn, hanswer⟩ := infer_relevance s c
  exact ⟨relevance, n, build_relevance, hn, hanswer⟩

/-- **The rules of relevance do not cover everything.**  A perfect match of confidence 0.7 lets no
rule fire and is answered with the middle of the domain. -/
theorem not_relevance_covers :
    ∃ (e : Engine ℝ) (n : Noted (Inference ℝ)), build "relevance" [] = .ok e ∧
      (1 : ℝ) ∈ unitInterval ∧ (0.7 : ℝ) ∈ unitInterval ∧
      e.infer [("similarity", 1), ("confidence", 0.7)] "relevance" = .ok n ∧
      (¬ ∃ f ∈ n.value.fired, 0 < f.2) ∧ n.value.crisp = 0.5 ∧
      n.notices = [.noRuleFired "relevance"] := by
  have hnot : ¬ Covered 1 0.7 := by norm_num [Covered]
  obtain ⟨n, hn, hfires, hback, -⟩ := infer_relevance 1 0.7
  obtain ⟨hcrisp, hnotices⟩ := hback.mpr hnot
  refine ⟨relevance, n, build_relevance, unitInterval.one_mem, ?_, hn, mt hfires.mp hnot, ?_,
    hnotices⟩
  · exact ⟨by norm_num, by norm_num⟩
  · rw [hcrisp]
    norm_num [Variable.midpoint, Vocabulary.relevance, Vocabulary.onUnit]

end Engine
end Graded
