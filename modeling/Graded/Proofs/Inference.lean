/-
# What an inference computes

Under catalogued operators (`Settings.Catalogued`) an inference in exact arithmetic is one formula:

* the rules for the output fire with their exact strengths (`firings_eq`);
* what they support at a point is a fold over the rules in their order, which passes over the
  rules of strength 0 (`support`), and the profile is that, cut off (`aggregate_eq`);
* the profile is defuzzified, unless it is positive nowhere.

An inference to a declared output gets as far as that exactly if every rule that fires concludes on
a set that the output has (`Concludes`); `infer_eq` and `infer_inv` say so in the two directions.
Everything proved of whole inferences is proved of this formula.
-/
import Graded.Proofs.Accumulation
import Graded.Proofs.Defuzzification
import Graded.Proofs.Firing
import Graded.Proofs.Sampling
import Graded.Proofs.Success

namespace Graded

/-! ## 1. Catalogued settings -/

/-- The five operators of the settings are catalogued ones. -/
structure Settings.Catalogued (o : Settings ℝ) : Prop where
  norm : ∃ entry ∈ TNorm.catalogue, o.norm = .regular entry.2
  conorm : ∃ entry ∈ TConorm.catalogue, o.conorm = .regular entry.2
  implication : ∃ entry ∈ Implication.catalogue, o.implication = .regular entry.2
  accumulation : ∃ entry ∈ Accumulation.catalogue, o.accumulation = .regular entry.2
  defuzzifier : ∃ entry ∈ Defuzzifier.catalogue, o.defuzzifier = .regular entry.2

/-- Settings with the given operators, the norm being proper. -/
structure Settings.Uses (o : Settings ℝ) (t : TNorm ℝ) (s : TConorm) (i : Implication)
    (a : Accumulation) (z : Defuzzifier) : Prop where
  proper : t.Proper
  norm : o.norm = .regular t
  conorm : o.conorm = .regular s
  implication : o.implication = .regular i
  accumulation : o.accumulation = .regular a
  defuzzifier : o.defuzzifier = .regular z

theorem Settings.Catalogued.uses {o : Settings ℝ} (h : o.Catalogued) :
    ∃ t s i a z, o.Uses t s i a z := by
  obtain ⟨⟨t, ht, hn⟩, ⟨s, -, hs⟩, ⟨i, -, hi⟩, ⟨a, -, ha⟩, ⟨z, -, hz⟩⟩ := h
  exact ⟨t.2, s.2, i.2, a.2, z.2, TNorm.proper_of_mem_catalogue ht, hn, hs, hi, ha, hz⟩

/-- Operators of the right families are catalogued; only of norms there are more than have a
name. -/
theorem Settings.catalogued_regular {t : TNorm ℝ} (ht : ∃ entry ∈ TNorm.catalogue, t = entry.2)
    (s : TConorm) (i : Implication) (a : Accumulation) (z : Defuzzifier) {n : ℕ} (pos : 0 < n) :
    (Settings.regular t s i a z n pos).Catalogued where
  norm := by
    obtain ⟨entry, he, rfl⟩ := ht
    exact ⟨entry, he, rfl⟩
  conorm := by cases s <;> simp [Settings.regular, TConorm.catalogue]
  implication := by cases i <;> simp [Settings.regular, Implication.catalogue]
  accumulation := by cases a <;> simp [Settings.regular, Accumulation.catalogue]
  defuzzifier := by cases z <;> simp [Settings.regular, Defuzzifier.catalogue]

/-- The minimum is a catalogued norm. -/
theorem Settings.catalogued_minimum (s : TConorm) (i : Implication) (a : Accumulation)
    (z : Defuzzifier) {n : ℕ} (pos : 0 < n) :
    (Settings.regular (.minimum : TNorm ℝ) s i a z n pos).Catalogued :=
  catalogued_regular ⟨("min", .minimum), by simp [TNorm.catalogue], rfl⟩ s i a z pos

/-- A rule with its exact strength. -/
noncomputable def Rule.fire (t : TNorm ℝ) (s : TConorm) (readings : Readings ℝ) (r : Rule ℝ) :
    Firing ℝ :=
  ⟨r, r.exactStrength t s readings⟩

namespace Engine

variable {e : Engine ℝ} {t : TNorm ℝ} {s : TConorm} {i : Implication} {a : Accumulation}
  {z : Defuzzifier} {v : Variable ℝ} {readings : Readings ℝ} {inputs : Keyed ℝ} {output : String}
  {fs : List (Firing ℝ)} {xs : List ℝ}

/-! ## 2. Firing -/

/-- The rules for an output with their exact strengths. -/
noncomputable def exactFirings (e : Engine ℝ) (t : TNorm ℝ) (s : TConorm)
    (readings : Readings ℝ) (output : String) : List (Firing ℝ) :=
  (e.rulesFor output).map (Rule.fire t s readings)

/-- Every rule fires with its exact strength. -/
theorem strength_eq (hu : e.settings.Uses t s i a z) (hr : InUnit readings) (r : Rule ℝ) :
    e.strength r readings = .ok (r.exactStrength t s readings) := by
  rw [strength, hu.norm, hu.conorm, Rule.strength_eq hu.proper hr]

theorem firings_eq (hu : e.settings.Uses t s i a z) (hr : InUnit readings) (output : String) :
    e.firings readings output = .ok (e.exactFirings t s readings output) := by
  refine mapM_ok fun r _ => ?_
  rw [strength_eq hu hr]
  rfl

/-- A rule for an output is one of the rules of the engine, so it is acceptable. -/
theorem accepted_of_mem {r : Rule ℝ} (h : r ∈ e.rulesFor output) : r.fault? = none :=
  e.accepted r (List.mem_of_mem_filter h)

/-- No rule fires with a negative strength. -/
theorem strength_nonneg_of_mem (ht : t.Proper) (hr : InUnit readings) {f : Firing ℝ}
    (h : f ∈ e.exactFirings t s readings output) : 0 ≤ f.strength := by
  obtain ⟨r, hm, rfl⟩ := List.mem_map.mp h
  exact Rule.exactStrength_nonneg ht hr (accepted_of_mem hm)

/-! ## 3. Support at a point -/

/-- What has been accumulated at a point, with what one more rule implies there. -/
noncomputable def supportStep (i : Implication) (a : Accumulation) (v : Variable ℝ) (x : ℝ)
    (mu : ℝ) (f : Firing ℝ) : ℝ :=
  if f.strength = 0 then mu
  else a.value mu (i.value f.strength (v.degreeAt f.rule.conclusion.setName x))

/-- What rules support at a point, before it is cut off. -/
noncomputable def support (i : Implication) (a : Accumulation) (v : Variable ℝ)
    (fs : List (Firing ℝ)) (x : ℝ) : ℝ :=
  fs.foldl (supportStep i a v x) 0

/-- Rules that fire with at most 1 support with at most 1. -/
theorem support_le_one (x : ℝ) (h : ∀ f ∈ fs, 0 ≤ f.strength ∧ f.strength ≤ 1) :
    support i a v fs x ≤ 1 := by
  have hfold : ∀ mu ≤ 1, fs.foldl (supportStep i a v x) mu ≤ 1 := by
    induction fs with
    | nil => exact fun mu hmu => hmu
    | cons f fs ih =>
      intro mu hmu
      obtain ⟨h0, h1⟩ := h f List.mem_cons_self
      refine ih (fun g hg => h g (List.mem_cons_of_mem _ hg)) _ ?_
      unfold supportStep
      split_ifs
      · exact hmu
      · exact Accumulation.value_le_one hmu
          (Implication.value_le_one h0 (v.degreeAt_mem _ x) fun _ => h1)
  exact hfold 0 zero_le_one

/-- Where the weaker of a strength and a degree is implied and the strongest counts, a rule that
does not fire need not be passed over. -/
theorem supportStep_mamdani_maximum {f : Firing ℝ} {mu : ℝ} (x : ℝ) (hmu : 0 ≤ mu) :
    supportStep .mamdani .maximum v x mu f =
      max mu (min f.strength (v.degreeAt f.rule.conclusion.setName x)) := by
  unfold supportStep
  split_ifs with h0
  · rw [h0, min_eq_left (v.degreeAt_mem _ x).1, max_eq_left hmu]
  · rw [Accumulation.value_maximum, Implication.value_mamdani]

/-- Every rule that fires concludes on a set of the variable. -/
def Concludes (v : Variable ℝ) (fs : List (Firing ℝ)) : Prop :=
  ∀ f ∈ fs, f.strength ≠ 0 → (v.set? f.rule.conclusion.setName).isSome

/-- Rules for an output whose sets are all there conclude on it, whatever the inputs are. -/
theorem concludes_of_sets (h : ∀ r ∈ e.rulesFor output, (v.set? r.conclusion.setName).isSome) :
    Concludes v (e.exactFirings t s readings output) := by
  intro f hf _
  obtain ⟨r, hr, rfl⟩ := List.mem_map.mp hf
  exact h r hr

/-- Accumulating one rule is one step at every point. -/
theorem accumulate_eq (hu : e.settings.Uses t s i a z) (g : ℝ → ℝ) {f : Firing ℝ}
    (h : f.strength ≠ 0 → (v.set? f.rule.conclusion.setName).isSome) :
    e.accumulate v xs (xs.map g) f = .ok (xs.map fun x => supportStep i a v x (g x) f) := by
  by_cases h0 : f.strength = 0
  · simp [accumulate, supportStep, h0]
  · obtain ⟨c, hc⟩ := Option.isSome_iff_exists.mp (h h0)
    have hset : v.set f.rule.conclusion.setName = .ok c := by simp [Variable.set, hc]
    simp only [accumulate, beq_iff_eq, h0, if_false, hset, hu.implication, hu.accumulation,
      FuzzySet.sample?_eq, Chosen.imply_regular, bind, Except.bind, supportStep,
      Variable.sample_eq hc]
    rw [Chosen.accumulate_regular a (by simp)]
    simp [List.zipWith_map_left, List.zipWith_map_right, List.zipWith_self]

/-- A rule that fires and concludes on no set of the variable is a fault. -/
theorem accumulate_noSet {f : Firing ℝ} (h0 : f.strength ≠ 0)
    (h : v.set? f.rule.conclusion.setName = none) (mu : List ℝ) :
    e.accumulate v xs mu f = .error (.noSet v.name f.rule.conclusion.setName) := by
  simp [accumulate, h0, Variable.set, h, bind, Except.bind]

theorem foldlM_accumulate (hu : e.settings.Uses t s i a z) :
    ∀ {fs : List (Firing ℝ)} (g : ℝ → ℝ), Concludes v fs →
      fs.foldlM (e.accumulate v xs) (xs.map g) =
        .ok (xs.map fun x => fs.foldl (supportStep i a v x) (g x))
  | [], _, _ => rfl
  | f :: fs, g, h => by
    rw [List.foldlM_cons, accumulate_eq hu g (h f List.mem_cons_self)]
    exact foldlM_accumulate hu _ fun f' hf' => h f' (List.mem_cons_of_mem _ hf')

/-- **The profile is the support at each point, cut off.** -/
theorem aggregate_eq (hu : e.settings.Uses t s i a z) (h : Concludes v fs) :
    e.aggregate fs v = .ok ⟨v.points e.settings.resolution,
      (v.points e.settings.resolution).map fun x => Scalar.clamp (support i a v fs x)⟩ := by
  rw [aggregate, foldlM_accumulate hu (fun _ => 0) h]
  simp [bind, Except.bind, pure, Except.pure, support, Function.comp_def]

/-- Conversely, rules come to a profile only if they conclude on sets of the variable. -/
theorem concludes_of_foldlM (hu : e.settings.Uses t s i a z) {mus : List ℝ} :
    ∀ {fs : List (Firing ℝ)} (g : ℝ → ℝ),
      fs.foldlM (e.accumulate v xs) (xs.map g) = .ok mus → Concludes v fs
  | [], _, _ => by simp [Concludes]
  | f :: fs, g, h => by
    have hf : f.strength ≠ 0 → (v.set? f.rule.conclusion.setName).isSome := by
      intro h0
      by_contra hn
      rw [List.foldlM_cons, accumulate_noSet h0 (by simpa using hn)] at h
      cases h
    rw [List.foldlM_cons, accumulate_eq hu g hf] at h
    have hfs : Concludes v fs := concludes_of_foldlM hu _ h
    intro f' hf'
    rcases List.mem_cons.mp hf' with rfl | hf'
    · exact hf
    · exact hfs f' hf'

theorem concludes_of_aggregate (hu : e.settings.Uses t s i a z) {p : Profile ℝ}
    (h : e.aggregate fs v = .ok p) : Concludes v fs := by
  unfold aggregate at h
  dsimp only at h
  cases hm : fs.foldlM (e.accumulate v (v.points e.settings.resolution))
      ((v.points e.settings.resolution).map fun _ => 0) with
  | error fault =>
    rw [hm] at h
    cases h
  | ok mus => exact concludes_of_foldlM hu _ hm

/-! ## 4. Whole inferences -/

/-- The profile of an inference. -/
noncomputable def exactProfile (e : Engine ℝ) (t : TNorm ℝ) (s : TConorm) (i : Implication)
    (a : Accumulation) (v : Variable ℝ) (inputs : Keyed ℝ) (output : String) : Profile ℝ :=
  ⟨v.points e.settings.resolution, (v.points e.settings.resolution).map fun x =>
    Scalar.clamp (support i a v (e.exactFirings t s (e.fuzzify inputs) output) x)⟩

/-- The rules for an output as they are listed in the answer. -/
noncomputable def exactFired (e : Engine ℝ) (t : TNorm ℝ) (s : TConorm) (inputs : Keyed ℝ)
    (output : String) : List (String × ℝ) :=
  (e.rulesFor output).map fun r => (r.id, r.exactStrength t s (e.fuzzify inputs))

/-- The profile of an inference lies over the domain of its output. -/
theorem within_exactProfile (e : Engine ℝ) (t : TNorm ℝ) (s : TConorm) (i : Implication)
    (a : Accumulation) (v : Variable ℝ) (inputs : Keyed ℝ) (output : String) :
    (e.exactProfile t s i a v inputs output).Within v.low v.high where
  points _ hx := Scalar.mem_grid v.proper e.settings.positive hx
  degrees mu hmu := by
    obtain ⟨x, -, rfl⟩ := List.mem_map.mp hmu
    exact (Scalar.clamp_mem _).1
  length := List.length_map _
  nonempty := Scalar.grid_ne_nil _ _ _

/-- The midpoint of a domain lies in it. -/
theorem midpoint_mem (v : Variable ℝ) : v.midpoint ∈ Set.Icc v.low v.high := by
  have h2 : v.midpoint = (v.low + v.high) / 2 := by norm_num [Variable.midpoint]
  have := v.proper
  rw [h2]
  constructor
  · linarith
  · linarith

/-- **Every profile over the domain comes to a crisp value in the domain.** -/
theorem settle_within (hu : e.settings.Uses t s i a z) (output : String) {p : Profile ℝ}
    (hp : p.Within v.low v.high) : Profile.Answers v.low v.high (e.settle v output p) := by
  unfold settle
  split
  · rw [hu.defuzzifier, Chosen.defuzzify_regular]
    exact z.apply_within hp
  · exact ⟨_, rfl, midpoint_mem v⟩

/-- A profile of positive sum is positive somewhere, so it is defuzzified. -/
theorem settle_of_sum_pos (hu : e.settings.Uses t s i a z) (output : String) {p : Profile ℝ}
    (h : 0 < p.degrees.sum) : e.settle v output p = z.apply p := by
  have hany : p.degrees.any (0 < ·) = true := by
    by_contra hnone
    have hall : ∀ mu ∈ p.degrees, mu ≤ 0 := by
      intro mu hmu
      by_contra hpos
      exact hnone (List.any_eq_true.mpr ⟨mu, hmu, decide_eq_true (not_le.mp hpos)⟩)
    have hsum := List.sum_le_card_nsmul p.degrees 0 hall
    rw [smul_zero] at hsum
    exact h.not_ge hsum
  rw [settle, if_pos hany, hu.defuzzifier, Chosen.defuzzify_regular]

/-- **An inference succeeds** if the output is declared and every rule that fires concludes on one
of its sets. -/
theorem infer_eq (hu : e.settings.Uses t s i a z) (hv : e.find? output = some v)
    (inputs : Keyed ℝ) (hc : Concludes v (e.exactFirings t s (e.fuzzify inputs) output)) :
    ∃ c, e.settle v output (e.exactProfile t s i a v inputs output) = .ok c ∧
      c.value ∈ Set.Icc v.low v.high ∧
      e.infer inputs output = .ok ⟨⟨c.value, e.exactFired t s inputs output,
        e.exactProfile t s i a v inputs output⟩, c.notices⟩ := by
  obtain ⟨c, hs, hin⟩ := settle_within (z := z) hu output
    (within_exactProfile e t s i a v inputs output)
  refine ⟨c, hs, hin, ?_⟩
  have ho : e.output output = .ok v := by simp [Engine.output, hv]
  have hp : e.aggregate (e.exactFirings t s (e.fuzzify inputs) output) v =
      .ok (e.exactProfile t s i a v inputs output) := aggregate_eq hu hc
  have hf := firings_eq hu (e.inUnit_fuzzify inputs) output
  rw [infer, ho, fuzzify?_eq]
  simp only [bind, Except.bind, hf, hp, hs, pure, Except.pure, Noted.map]
  simp [exactFirings, exactFired, Rule.fire, Function.comp_def]

/-- **An inference that succeeds** has a declared output, and its rules conclude on it. -/
theorem infer_inv (hu : e.settings.Uses t s i a z) {n : Noted (Inference ℝ)}
    (h : e.infer inputs output = .ok n) :
    ∃ v, e.find? output = some v ∧
      Concludes v (e.exactFirings t s (e.fuzzify inputs) output) := by
  cases hv : e.find? output with
  | none =>
    rw [infer_of_not_declared hv] at h
    cases h
  | some v =>
    refine ⟨v, rfl, ?_⟩
    have ho : e.output output = .ok v := by simp [Engine.output, hv]
    rw [infer, ho, fuzzify?_eq] at h
    simp only [bind, Except.bind, firings_eq hu (e.inUnit_fuzzify inputs) output] at h
    cases hp : e.aggregate (e.exactFirings t s (e.fuzzify inputs) output) v with
    | error fault => simp [hp] at h
    | ok p => exact concludes_of_aggregate hu hp

end Engine

/-! ## 5. A small engine

One variable, `level`, that is low to the extent that it is not high.  The instances of the
theorems on inferences are instances at this engine. -/

namespace Level

/-- Low and high over the unit interval, each the complement of the other. -/
noncomputable def level : Variable ℝ :=
  ⟨"level", 0, 1, [⟨"low", .leftShoulder 0 1⟩, ⟨"high", .rightShoulder 0 1⟩], by simp, by simp,
    Real.zero_lt_one⟩

/-- An engine with the variable `level`. -/
noncomputable def engine (o : Settings ℝ) (rules : List (Rule ℝ))
    (accepted : ∀ r ∈ rules, r.fault? = none) : Engine ℝ :=
  ⟨o, [⟨.own 0, level⟩], rules, by simp, accepted⟩

/-- If the level is low it stays low, with a weight. -/
noncomputable def keepsLow (id : String) (weight : ℝ) : Rule ℝ :=
  ⟨id, [⟨"level", "low", false⟩], ⟨"level", "low"⟩, weight, .and⟩

theorem find?_engine {o : Settings ℝ} {rules : List (Rule ℝ)}
    (accepted : ∀ r ∈ rules, r.fault? = none) :
    (engine o rules accepted).find? "level" = some level := by
  simp [Engine.find?, Engine.declaration?, engine, Declared.name, level]

theorem fault?_keepsLow (id : String) {weight : ℝ} (h : 0 ≤ weight) :
    (keepsLow id weight).fault? = none :=
  Rule.fault?_eq_none_iff.mpr ⟨h, .inl rfl⟩

/-- Rules that keep the level low conclude on one of its sets. -/
theorem isSome_set? {e : Engine ℝ} (h : ∀ r ∈ e.rules, r.conclusion = ⟨"level", "low"⟩)
    (output : String) :
    ∀ r ∈ e.rulesFor output, (level.set? r.conclusion.setName).isSome := by
  intro r hr
  rw [h r (List.mem_of_mem_filter hr)]
  simp [Variable.set?, level]

theorem degreeAt_low_zero : level.degreeAt "low" 0 = 1 := by
  simp [Variable.degreeAt, Variable.set?, level, Shape.degree, Shape.raw, Shape.leftShoulderRaw,
    Scalar.clamp_eq]

theorem degreeAt_low_one : level.degreeAt "low" 1 = 0 := by
  have h10 : ¬ (1 : ℝ) ≤ 0 := by norm_num
  simp [Variable.degreeAt, Variable.set?, level, Shape.degree, Shape.raw, Shape.leftShoulderRaw,
    Shape.between, Scalar.clamp_eq, h10]

/-- Such a rule fires as far as the level is low. -/
theorem exactStrength_keepsLow {o : Settings ℝ} {rules : List (Rule ℝ)}
    (accepted : ∀ r ∈ rules, r.fault? = none) (id : String) (weight x : ℝ) :
    (keepsLow id weight).exactStrength .minimum .maximum
      ((engine o rules accepted).fuzzify [("level", x)]) = level.degreeAt "low" x * weight := by
  have hdegree : Grading.degreeOf (level.fuzzify x) "low" = level.degreeAt "low" x :=
    Variable.degreeOf_fuzzify _ _ _
  simp [Rule.exactStrength, Rule.joined, Rule.degrees, keepsLow, Engine.fuzzify, find?_engine,
    Condition.degree, hdegree, TNorm.value, Scalar.least_eq_min,
    min_eq_right (level.degreeAt_mem "low" x).2]

/-- At level 0 such a rule fires with its weight. -/
theorem fire_keepsLow {o : Settings ℝ} {rules : List (Rule ℝ)}
    (accepted : ∀ r ∈ rules, r.fault? = none) (id : String) (weight : ℝ) :
    (keepsLow id weight).fire .minimum .maximum
      ((engine o rules accepted).fuzzify [("level", 0)]) = ⟨keepsLow id weight, weight⟩ := by
  rw [Rule.fire, exactStrength_keepsLow, degreeAt_low_zero, one_mul]

end Level
end Graded
