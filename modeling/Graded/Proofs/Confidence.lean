/-
# Confidence grows with similarity

The engine that turns similarity into confidence is monotone: over all similarities, in the domain
or not, the crisp confidence never falls while the similarity grows, and some rule always fires
(`confidence_monotone`).

* The engine holds the rules of the five bands, in their order (`rulesFor_confidence`).
* What they support at the hundredths are the weights of the similarity (`sixty_mul_support`), so
  the crisp confidence is the centre of these weights (`infer_confidence`).
* That the centre only moves to the right is shown where nothing is said of engines
  (`centre_weights_mono`).
-/
import Graded.Proofs.Engine
import Graded.Proofs.Inference
import Graded.Proofs.Stages

namespace Graded

open Balance Band

/-! ## 1. The engine -/

/-- The name of the rule of a band. -/
def Band.id : Band → String
  | full => "conf_r1"
  | strong => "conf_r2"
  | half => "conf_r3"
  | weak => "conf_r4"
  | no => "conf_r5"

/-- The rule of a band. -/
noncomputable def Band.rule (k : Band) : Rule ℝ :=
  .plain k.id [("similarity", k.similarity)] ⟨"confidence", k.confidence⟩

namespace Engine

/-- The engine that turns similarity into confidence. -/
noncomputable def confidence : Engine ℝ := .ready .standard .confidence

theorem build_confidence : build "confidence" [] = .ok confidence := build_of_find? rfl

theorem settings_confidence : confidence.settings = .standard := (ready_holds _ _).1

theorem uses_confidence :
    confidence.settings.Uses .minimum .maximum .mamdani .maximum .centroid := uses_ready _

/-- The rules are those of the bands, in their order. -/
theorem rulesFor_confidence : confidence.rulesFor "confidence" = Band.all.map Band.rule := by
  rw [rulesFor, confidence, (ready_holds _ _).2.1]
  rfl

theorem find?_confidence : confidence.find? "confidence" = some Vocabulary.confidence := by
  rw [find?, declaration?, confidence, (ready_holds _ _).2.2]
  rfl

theorem fuzzify_confidence (s : ℝ) : confidence.fuzzify [("similarity", s)] =
    [("similarity", Vocabulary.similarity.fuzzify s)] := by
  have hfind : confidence.find? "similarity" = some Vocabulary.similarity := by
    rw [find?, declaration?, confidence, (ready_holds _ _).2.2]
    rfl
  simp [fuzzify, hfind]

/-! ## 2. What is supported -/

/-- How strongly the rule of a band fires. -/
theorem strength_confidence (k : Band) (s : ℝ) :
    60 * k.rule.exactStrength .minimum .maximum (confidence.fuzzify [("similarity", s)]) =
      k.strength s := by
  rw [fuzzify_confidence, ← Band.sixty_mul_similarity, ← Variable.degreeOf_fuzzify]
  have hle :
      Grading.degreeOf ((Vocabulary.similarity : Variable ℝ).fuzzify s) k.similarity ≤ 1 := by
    rw [Variable.degreeOf_fuzzify]
    exact (Variable.degreeAt_mem _ _ _).2
  simp [Rule.exactStrength, Rule.joined, Rule.degrees, Band.rule, Rule.plain, Condition.degree,
    TNorm.value, Scalar.least_eq_min, hle]

/-- The firings are those of the bands. -/
theorem exactFirings_confidence (s : ℝ) :
    confidence.exactFirings .minimum .maximum (confidence.fuzzify [("similarity", s)])
      "confidence" = Band.all.map fun k =>
        k.rule.fire .minimum .maximum (confidence.fuzzify [("similarity", s)]) := by
  rw [exactFirings, rulesFor_confidence, List.map_map]
  rfl

/-- **What the rules support** at a hundredth. -/
theorem sixty_mul_support (s : ℝ) {i : ℤ} (h0 : 0 ≤ i) (h1 : i ≤ 100) :
    60 * support .mamdani .maximum Vocabulary.confidence (confidence.exactFirings .minimum .maximum
      (confidence.fuzzify [("similarity", s)]) "confidence") ((i : ℝ) / 100) =
        Band.weights s i := by
  have hfold : ∀ (l : List Band) (mu : ℝ), 0 ≤ mu →
      60 * (l.map fun k => k.rule.fire .minimum .maximum
        (confidence.fuzzify [("similarity", s)])).foldl
          (supportStep .mamdani .maximum Vocabulary.confidence ((i : ℝ) / 100)) mu =
      l.foldl (fun mu k => max mu (min (k.strength s) (k.height i))) (60 * mu) := by
    intro l
    induction l with
    | nil => exact fun mu _ => rfl
    | cons k l ih =>
      intro mu hmu
      rw [List.map_cons, List.foldl_cons, List.foldl_cons, supportStep_mamdani_maximum _ hmu,
        ih _ (le_max_of_le_left hmu), mul_max_of_nonneg _ _ (by norm_num),
        mul_min_of_nonneg _ _ (by norm_num), ← strength_confidence,
        ← Band.sixty_mul_confidence k h0 h1]
      rfl
  rw [support, exactFirings_confidence, hfold Band.all 0 le_rfl, mul_zero]
  rfl

/-- The profile of confidence, by its weights. -/
theorem exactProfile_confidence (s : ℝ) :
    confidence.exactProfile .minimum .maximum .mamdani .maximum Vocabulary.confidence
      [("similarity", s)] "confidence" =
        ⟨(List.range 101).map fun i : ℕ => ((i : ℤ) : ℝ) / 100,
          (List.range 101).map fun i : ℕ => Band.weights s i / 60⟩ := by
  have hpoints : (Vocabulary.confidence : Variable ℝ).points confidence.settings.resolution =
      (List.range 101).map fun i : ℕ => ((i : ℤ) : ℝ) / 100 := by
    rw [settings_confidence]
    refine (Scalar.grid_unit (n := 100) (by decide)).trans ?_
    norm_num
  have hin := confidence.inUnit_fuzzify [("similarity", s)]
  rw [exactProfile, hpoints, List.map_map]
  congr 1
  refine List.map_congr_left fun i hi => ?_
  have h1 : (i : ℤ) ≤ 100 := by
    have := List.mem_range.mp hi
    omega
  have hw := sixty_mul_support s (Int.natCast_nonneg i) h1
  set x := support _ _ _ _ _ with hx
  have hmem : x ∈ unitInterval := by
    refine ⟨?_, support_le_one _ fun f hf => ⟨?_, ?_⟩⟩
    · linarith [Band.weights_nonneg s i]
    · exact strength_nonneg_of_mem uses_confidence.proper hin hf
    · rw [exactFirings_confidence] at hf
      obtain ⟨k, -, rfl⟩ := List.mem_map.mp hf
      exact Rule.exactStrength_le_weight uses_confidence.proper hin (Rule.fault?_plain _ _ _)
  rw [Function.comp_apply, ← hx, Scalar.clamp_eq_self_iff.mpr hmem, ← hw]
  ring

/-! ## 3. What is inferred -/

/-- Where the profile has weight it is defuzzified, and that gives its centre. -/
theorem settle_confidence (s : ℝ) :
    confidence.settle Vocabulary.confidence "confidence"
      (confidence.exactProfile .minimum .maximum .mamdani .maximum Vocabulary.confidence
        [("similarity", s)] "confidence") = .ok ⟨centre (Band.weights s) / 100, []⟩ := by
  have hmass := Band.mass_weights_pos s
  set degrees := (List.range 101).map fun i : ℕ => Band.weights s i / 60 with hdegrees
  set points := (List.range 101).map fun i : ℕ => ((i : ℤ) : ℝ) / 100 with hpoints
  have hsum : degrees.sum = mass (Band.weights s) / 60 := by
    rw [hdegrees, sum_range_eq (fun i => Band.weights s i / 60), mass, Finset.sum_div]
  have hmoments : (List.zipWith (· * ·) points degrees).sum =
      (∑ i ∈ grid, i * Band.weights s i) / 6000 := by
    rw [hpoints, hdegrees, List.zipWith_map, List.zipWith_self,
      sum_range_eq (fun i => (i : ℝ) / 100 * (Band.weights s i / 60)), Finset.sum_div]
    exact Finset.sum_congr rfl fun i _ => by ring
  have hpos : 0 < degrees.sum := hsum ▸ div_pos hmass (by norm_num)
  have hlen : degrees.length = points.length := by simp [hdegrees, hpoints]
  have hquotient : ∀ moments : ℝ, moments / 6000 / (mass (Band.weights s) / 60) =
      moments / mass (Band.weights s) / 100 := by
    intro moments
    field_simp
    ring
  rw [exactProfile_confidence, settle_of_sum_pos uses_confidence _ hpos]
  refine (Profile.centroid_eq hlen hpos.ne').trans ?_
  rw [hmoments, hsum, hquotient, centre]

/-- **What the engine infers** is the centre of the weights, and some rule fires. -/
theorem infer_confidence (s : ℝ) :
    ∃ n, confidence.infer [("similarity", s)] "confidence" = .ok n ∧
      n.value.crisp = centre (Band.weights s) / 100 ∧ n.notices = [] ∧
      ∃ f ∈ n.value.fired, 0 < f.2 := by
  have hsets : ∀ r ∈ confidence.rulesFor "confidence",
      ((Vocabulary.confidence : Variable ℝ).set? r.conclusion.setName).isSome := by
    intro r hr
    rw [rulesFor_confidence] at hr
    obtain ⟨k, -, rfl⟩ := List.mem_map.mp hr
    cases k <;> rfl
  obtain ⟨c, hc, -, hn⟩ := infer_eq uses_confidence find?_confidence [("similarity", s)]
    (concludes_of_sets hsets)
  rw [settle_confidence] at hc
  cases hc
  refine ⟨_, hn, rfl, rfl, ?_⟩
  obtain ⟨k, hk⟩ := Band.exists_fires s
  refine ⟨(k.id, k.rule.exactStrength .minimum .maximum
    (confidence.fuzzify [("similarity", s)])), ?_, ?_⟩
  · have hmem : k ∈ Band.all := by cases k <;> decide
    rw [exactFired, rulesFor_confidence, List.map_map]
    exact List.mem_map_of_mem hmem
  · have h60 := strength_confidence k s
    dsimp only
    linarith

/-- **Confidence never falls while similarity grows**, and some rule always fires, so that the
middle of the domain is never the answer for want of one. -/
theorem confidence_monotone :
    ∃ e : Engine ℝ, build "confidence" [] = .ok e ∧
      ∃ crisp : ℝ → ℝ, Monotone crisp ∧
        ∀ s, ∃ n, e.infer [("similarity", s)] "confidence" = .ok n ∧ n.value.crisp = crisp s ∧
          n.notices = [] ∧ ∃ f ∈ n.value.fired, 0 < f.2 := by
  refine ⟨confidence, build_confidence, fun s => centre (Band.weights s) / 100, ?_,
    infer_confidence⟩
  intro s t hst
  exact div_le_div_of_nonneg_right (centre_weights_mono hst) (by norm_num)

end Engine
end Graded
