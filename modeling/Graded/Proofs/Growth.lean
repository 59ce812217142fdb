/-
# One more rule

Under most pairs of an implication and an accumulation, one more rule for an output never lowers
a degree of the profile, whatever the weights are (`degrees_le_of_addRule`).  Three pairs keep
that up only as long as rules do not fire with more than 1, and `not_neverLowers` shows each of
them lowering a degree:

* the implication of Larsen under the probabilistic sum, where two implied degrees above 1 turn
  `a + b - ab` around;
* the implication of Lukasiewicz under either sum, where the implied degree of one rule that
  fires with more than 1 may be negative.

The rule comes last, so what has been accumulated before it may be anything; one step is compared
with none (`supportStep_grows`), and the cut at the end comes after the step.
-/
import Graded.Proofs.Engine
import Graded.Proofs.Inference

namespace Graded.Engine

variable {e e' : Engine ℝ} {t : TNorm ℝ} {s : TConorm} {i : Implication} {a : Accumulation}
  {z : Defuzzifier} {v : Variable ℝ} {inputs : Keyed ℝ} {output : String} {r : Rule ℝ}

/-! ## 1. One step -/

/-- **One step adds** to what is seen of the support, unless it comes from a rule that fires with
more than 1 under a pair that does not tolerate that. -/
theorem supportStep_grows {f : Firing ℝ} (x mu : ℝ) (h0 : 0 ≤ f.strength)
    (h : i.Tolerant a ∨ f.strength ≤ 1 ∨ i ≠ .lukasiewicz ∧ mu ≤ 1) :
    Scalar.clamp mu ≤ Scalar.clamp (supportStep i a v x mu f) := by
  have hd := v.degreeAt_mem f.rule.conclusion.setName x
  unfold supportStep
  split_ifs with hs
  · exact le_rfl
  · rcases or_assoc.mpr h with h | ⟨hi, hmu⟩
    · exact Accumulation.clamp_le_clamp_value mu (Implication.adds_value h0 hd h)
    · exact Accumulation.clamp_le_clamp_value_of_le_one hmu
        (Implication.value_nonneg h0 hd fun hl => absurd hl hi)

/-- A rule at the end supports by one step more. -/
theorem support_append (fs : List (Firing ℝ)) (f : Firing ℝ) (x : ℝ) :
    support i a v (fs ++ [f]) x = supportStep i a v x (support i a v fs x) f := by
  rw [support, List.foldl_append]
  rfl

/-! ## 2. Engines with one more rule -/

/-- **Inferring with one more rule** for an output: each degree takes one step more. -/
theorem infer_addRule (hu : e.settings.Uses t s i a z) (hv : e.find? output = some v)
    (h : e.addRule r = .ok e') (ho : r.conclusion.variableName = output)
    (hsets : ∀ r ∈ e'.rulesFor output, (v.set? r.conclusion.setName).isSome)
    (inputs : Keyed ℝ) :
    ∃ n n', e.infer inputs output = .ok n ∧ e'.infer inputs output = .ok n' ∧
      n.value.profile = ⟨v.points e.settings.resolution,
        (v.points e.settings.resolution).map fun x => Scalar.clamp
          (support i a v (e.exactFirings t s (e.fuzzify inputs) output) x)⟩ ∧
      n'.value.profile = ⟨v.points e.settings.resolution,
        (v.points e.settings.resolution).map fun x => Scalar.clamp (supportStep i a v x
          (support i a v (e.exactFirings t s (e.fuzzify inputs) output) x)
          (r.fire t s (e.fuzzify inputs)))⟩ := by
  obtain ⟨hs, hd⟩ := settings_addRule h
  have hrules := rulesFor_addRule h ho
  have hv' : e'.find? output = some v := by simpa only [find?, declaration?, hd] using hv
  obtain ⟨c, -, -, hn⟩ := infer_eq hu hv inputs
    (concludes_of_sets fun r hr => hsets r (hrules ▸ List.mem_append_left _ hr))
  obtain ⟨c', -, -, hn'⟩ := infer_eq (e := e') (hs ▸ hu) hv' inputs
    (concludes_of_sets hsets)
  refine ⟨_, _, hn, hn', rfl, ?_⟩
  simp only [exactProfile, hs, exactFirings, hrules, fuzzify_addRule h, List.map_append,
    List.map_singleton, support_append]

/-- Rules that keep the level low can be joined by one more. -/
theorem addRule_keepsLow (h : ∀ r ∈ e.rules, r.conclusion = ⟨"level", "low"⟩) (id : String)
    {weight : ℝ} (hw : 0 ≤ weight) :
    ∃ e', e.addRule (Level.keepsLow id weight) = .ok e' ∧
      ∀ r ∈ e'.rulesFor "level", (Level.level.set? r.conclusion.setName).isSome := by
  obtain ⟨e', he'⟩ := addRule_of_fault?_eq_none (e := e) (Level.fault?_keepsLow id hw)
  refine ⟨e', he', Level.isSome_set? ?_ "level"⟩
  intro r hr
  rw [rules_addRule he'] at hr
  rcases List.mem_append.mp hr with hr | hr
  · exact h r hr
  · rw [List.mem_singleton.mp hr]
    rfl

/-- **One more rule for an output never lowers its profile**, unless one of the three pairs lets
rules fire with more than 1. -/
theorem degrees_le_of_addRule (hc : e.settings.Catalogued)
    (hi : e.settings.implication = .regular i) (ha : e.settings.accumulation = .regular a)
    (hv : e.find? output = some v) (h : e.addRule r = .ok e')
    (ho : r.conclusion.variableName = output)
    (hsets : ∀ r ∈ e'.rulesFor output, (v.set? r.conclusion.setName).isSome)
    (hr : i.Tolerant a ∨ (∀ m, e.strength r (e.fuzzify inputs) = .ok m → m ≤ 1) ∨
      i ≠ .lukasiewicz ∧
        ∀ r ∈ e.rulesFor output, ∀ m, e.strength r (e.fuzzify inputs) = .ok m → m ≤ 1) :
    ∃ n n', e.infer inputs output = .ok n ∧ e'.infer inputs output = .ok n' ∧
      n'.value.profile.points = n.value.profile.points ∧
      List.Forall₂ (· ≤ ·) n.value.profile.degrees n'.value.profile.degrees := by
  obtain ⟨t, s, i', a', z, hu⟩ := hc.uses
  cases hi.symm.trans hu.implication
  cases ha.symm.trans hu.accumulation
  have hin := e.inUnit_fuzzify inputs
  have hstrength : ∀ r, e.strength r (e.fuzzify inputs) =
      .ok (r.exactStrength t s (e.fuzzify inputs)) := by
    intro r
    rw [strength, hu.norm, hu.conorm, Rule.strength_eq hu.proper hin]
  obtain ⟨n, n', hn, hn', hp, hp'⟩ := infer_addRule hu hv h ho hsets inputs
  refine ⟨n, n', hn, hn', ?_, ?_⟩
  · rw [hp, hp']
  · rw [hp, hp', List.forall₂_map_left_iff, List.forall₂_map_right_iff, List.forall₂_same]
    intro x _
    refine supportStep_grows x _ ?_ ?_
    · exact Rule.exactStrength_nonneg hu.proper hin (fault?_of_addRule h)
    · rcases hr with hr | hr | ⟨hl, hr⟩
      · exact .inl hr
      · exact .inr (.inl (hr _ (hstrength r)))
      · refine .inr (.inr ⟨hl, support_le_one x fun f hf => ⟨?_, ?_⟩⟩)
        · exact strength_nonneg_of_mem hu.proper hin hf
        · obtain ⟨r', hr', rfl⟩ := List.mem_map.mp hf
          exact hr r' hr' _ (hstrength r')

/-- A rule of weight 1 joins one of weight 3 under a pair that is not tolerant. -/
theorem degrees_le_of_addRule_level :
    ∃ (e e' : Engine ℝ) (n n' : Noted (Inference ℝ)), e.rules = [Level.keepsLow "thrice" 3] ∧
      ¬ Implication.Tolerant .larsen .probabilisticSum ∧
      e.addRule (Level.keepsLow "once" 1) = .ok e' ∧
      e.infer [("level", 0)] "level" = .ok n ∧ e'.infer [("level", 0)] "level" = .ok n' ∧
      n'.value.profile.points = n.value.profile.points ∧
      List.Forall₂ (· ≤ ·) n.value.profile.degrees n'.value.profile.degrees := by
  have accepted : ∀ r ∈ [Level.keepsLow "thrice" 3], r.fault? = none := by
    intro r hr
    rw [List.mem_singleton.mp hr]
    exact Level.fault?_keepsLow "thrice" zero_le_three
  have hc := Settings.catalogued_minimum .maximum .larsen .probabilisticSum .centroid (n := 4)
    (by decide)
  set o := Settings.regular _ _ _ _ _ _ _
  set e := Level.engine o _ accepted
  obtain ⟨e', he', hsets⟩ := addRule_keepsLow (e := e) (by simp [e, Level.engine, Level.keepsLow])
    "once" zero_le_one
  have hstrength : ∀ m, e.strength (Level.keepsLow "once" 1) (e.fuzzify [("level", 0)]) = .ok m →
      m ≤ 1 := by
    intro m hm
    have hone := Rule.strength_eq (t := .minimum) (s := .maximum) trivial
      (e.inUnit_fuzzify [("level", 0)]) (Level.keepsLow "once" 1)
    cases hm.symm.trans hone
    exact (congrArg Firing.strength (Level.fire_keepsLow accepted "once" 1)).le
  obtain ⟨n, n', hn, hn', h⟩ := degrees_le_of_addRule hc rfl rfl (Level.find?_engine accepted)
    he' rfl hsets (.inr (.inl hstrength))
  exact ⟨e, e', n, n', rfl, id, he', hn, hn', h⟩

/-- One more rule never lowers a degree under the given pair, however strongly it fires. -/
def NeverLowers (i : Implication) (a : Accumulation) : Prop :=
  ∀ (e e' : Engine ℝ) (v : Variable ℝ) (r : Rule ℝ) (inputs : Keyed ℝ) (output : String)
    (n n' : Noted (Inference ℝ)), e.settings.Catalogued →
    e.settings.implication = .regular i → e.settings.accumulation = .regular a →
    e.find? output = some v → e.addRule r = .ok e' → r.conclusion.variableName = output →
    (∀ r ∈ e'.rulesFor output, (v.set? r.conclusion.setName).isSome) →
    e.infer inputs output = .ok n → e'.infer inputs output = .ok n' →
    List.Forall₂ (· ≤ ·) n.value.profile.degrees n'.value.profile.degrees

/-- A pair lowers a degree if it does so at an end of the domain of `level`, where a rule keeps
the level low with one weight and another rule with another weight joins it. -/
theorem not_neverLowers_of_level {u w x : ℝ} (hu : 0 ≤ u) (hw : 0 ≤ w) (hx : x = 0 ∨ x = 1)
    (h : ∀ mu, mu = supportStep i a Level.level x 0 ⟨Level.keepsLow "first" u, u⟩ →
      Scalar.clamp (supportStep i a Level.level x mu ⟨Level.keepsLow "second" w, w⟩) <
        Scalar.clamp mu) :
    ¬ NeverLowers i a := by
  intro hnever
  have accepted : ∀ r ∈ [Level.keepsLow "first" u], r.fault? = none := by
    intro r hr
    rw [List.mem_singleton.mp hr]
    exact Level.fault?_keepsLow "first" hu
  have hc := Settings.catalogued_minimum .maximum i a .centroid (n := 1) (by decide)
  set o := Settings.regular _ _ _ _ _ _ _
  set e := Level.engine o _ accepted
  have hu : o.Uses .minimum .maximum i a .centroid := ⟨trivial, rfl, rfl, rfl, rfl, rfl⟩
  obtain ⟨e', he', hsets⟩ := addRule_keepsLow (e := e) (by simp [e, Level.engine, Level.keepsLow])
    "second" hw
  obtain ⟨n, n', hn, hn', hp, hp'⟩ := infer_addRule hu (Level.find?_engine accepted) he' rfl
    hsets [("level", 0)]
  have hle := hnever e e' Level.level _ [("level", 0)] "level" n n' hc rfl rfl
    (Level.find?_engine accepted) he' rfl hsets hn hn'
  rw [hp, hp', List.forall₂_map_left_iff, List.forall₂_map_right_iff, List.forall₂_same] at hle
  have hmem : x ∈ Level.level.points e.settings.resolution := by
    rcases hx with rfl | rfl
    · exact List.mem_of_mem_head? (Scalar.head?_grid Level.level.proper e.settings.positive)
    · exact List.mem_of_mem_getLast? (Scalar.getLast?_grid e.settings.positive)
  have hfirst : e.exactFirings .minimum .maximum (e.fuzzify [("level", 0)]) "level" =
      [⟨Level.keepsLow "first" u, u⟩] := by
    rw [← Level.fire_keepsLow accepted]
    rfl
  have hlow := hle x hmem
  rw [hfirst, Level.fire_keepsLow] at hlow
  exact hlow.not_gt (h _ rfl)

/-- **Three pairs lower degrees**, at the latest when two rules fire with 2. -/
theorem not_neverLowers :
    ¬ NeverLowers .larsen .probabilisticSum ∧ ¬ NeverLowers .lukasiewicz .boundedSum ∧
      ¬ NeverLowers .lukasiewicz .probabilisticSum := by
  have hset : ∀ id weight, (Level.keepsLow id weight).conclusion.setName = "low" := fun _ _ => rfl
  refine ⟨?_, ?_, ?_⟩
  · -- the degrees at 0 go from 2 to 2 + 2 - 4
    refine not_neverLowers_of_level (u := 2) (w := 2) zero_le_two zero_le_two (.inl rfl) ?_
    rintro mu rfl
    norm_num [supportStep, hset, Level.degreeAt_low_zero, Accumulation.value_probabilisticSum,
      Implication.value_larsen, Scalar.clamp_eq]
  · -- the degrees at 1 go from 1/2 to 1/2 - 1
    refine not_neverLowers_of_level (u := 1 / 2) (w := 2) one_half_pos.le zero_le_two (.inr rfl) ?_
    rintro mu rfl
    norm_num [supportStep, hset, Level.degreeAt_low_one, Accumulation.value_boundedSum,
      Implication.value_lukasiewicz, Scalar.clamp_eq]
  · -- the degrees at 1 go from 1/2 to 1/2 - 1 + 1/2
    refine not_neverLowers_of_level (u := 1 / 2) (w := 2) one_half_pos.le zero_le_two (.inr rfl) ?_
    rintro mu rfl
    norm_num [supportStep, hset, Level.degreeAt_low_one, Accumulation.value_probabilisticSum,
      Implication.value_lukasiewicz, Scalar.clamp_eq]

end Graded.Engine
