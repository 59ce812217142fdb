/-
# The order of rules and of conditions

An inference does not depend on the order in which the rules of an engine were added, nor on the
order of the conditions inside a rule: universe, profile, crisp value and notices stay what they
are, and only the list of the rules is rearranged with them (`infer_rearranged`).  Under the maximum
a second copy of a rule changes nothing either.

There are two folds.  The inner one joins degrees, and its order does not matter because proper
norms and conorms are commutative and associative on degrees (`exactStrength_rearranged`).  The
outer one accumulates implied degrees, which need not be degrees: a weight may exceed 1.  Its steps
commute as long as no implied degree is negative (`supportStep_comm`), and that is what the weights
have to be bounded for under the implication of Lukasiewicz.
-/
import Graded.Proofs.Inference

namespace Graded

variable {t : TNorm ℝ} {s : TConorm} {i : Implication} {a : Accumulation} {z : Defuzzifier}
  {v : Variable ℝ} {readings : Readings ℝ} {inputs : Keyed ℝ} {output : String}
  {fs fs' : List (Firing ℝ)} {rs rs' : List (Rule ℝ)}

/-! ## 1. Rearranged rules -/

/-- The same rules in another order, each with its conditions in another order. -/
def Rule.RearrangedAll (rs rs' : List (Rule ℝ)) : Prop :=
  ∃ mid, List.Forall₂ Rule.Rearranged rs mid ∧ mid.Perm rs'

/-- Every rule is one of the rules that were there, rearranged. -/
theorem Rule.RearrangedAll.exists_of_mem (h : Rule.RearrangedAll rs rs') :
    ∀ r' ∈ rs', ∃ r ∈ rs, r.Rearranged r' := by
  obtain ⟨mid, hmid, hp⟩ := h
  intro r' hr'
  have hm : r' ∈ mid := hp.mem_iff.mpr hr'
  clear hp
  induction hmid with
  | nil => cases hm
  | cons hrr _ ih =>
    rcases List.mem_cons.mp hm with rfl | hm
    · exact ⟨_, List.mem_cons_self, hrr⟩
    · obtain ⟨r, hr, hrr⟩ := ih hm
      exact ⟨r, List.mem_cons_of_mem _ hr, hrr⟩

/-- If the level is as some of the conditions say it is low. -/
noncomputable def Level.eitherLow (conditions : List Condition) : Rule ℝ :=
  ⟨"either", conditions, ⟨"level", "low"⟩, 0.5, .or⟩

namespace Engine

/-- The rules for one output are rearranged with the rest. -/
theorem rearrangedAll_rulesFor {e e' : Engine ℝ} (h : Rule.RearrangedAll e.rules e'.rules)
    (output : String) : Rule.RearrangedAll (e.rulesFor output) (e'.rulesFor output) := by
  obtain ⟨mid, hmid, hp⟩ := h
  refine ⟨mid.filter fun r => r.conclusion.variableName == output, ?_, hp.filter _⟩
  refine List.rel_filter ?_ hmid
  intro r r' hr
  simp only [hr.conclusion]

/-- A second copy of a rule is a second rule for its own output and for no other. -/
theorem rulesFor_perm_of_cons {e e' : Engine ℝ} {r : Rule ℝ} (h : e'.rules.Perm (r :: e.rules))
    (hr : r ∈ e.rules) (output : String) :
    (e'.rulesFor output).Perm (e.rulesFor output) ∨
      r ∈ e.rulesFor output ∧ (e'.rulesFor output).Perm (r :: e.rulesFor output) := by
  have hp := h.filter fun r => r.conclusion.variableName == output
  by_cases ho : r.conclusion.variableName == output
  · rw [List.filter_cons, if_pos ho] at hp
    exact .inr ⟨List.mem_filter.mpr ⟨hr, ho⟩, hp⟩
  · rw [List.filter_cons, if_neg ho] at hp
    exact .inl hp

/-! ## 2. Conditions -/

/-- Rules with their conditions in another order fire alike, one by one. -/
theorem forall₂_fire (ht : t.Proper) (h : InUnit readings)
    (hr : List.Forall₂ Rule.Rearranged rs rs') :
    List.Forall₂ (fun f f' : Firing ℝ => f'.rule.id = f.rule.id ∧
        f'.rule.conclusion = f.rule.conclusion ∧ f'.strength = f.strength)
      (rs.map (Rule.fire t s readings)) (rs'.map (Rule.fire t s readings)) := by
  rw [List.forall₂_map_left_iff, List.forall₂_map_right_iff]
  exact hr.imp fun r r' hrr => ⟨hrr.id, hrr.conclusion, Rule.exactStrength_rearranged ht h hrr⟩

/-- So they are listed alike. -/
theorem map_fired (ht : t.Proper) (h : InUnit readings)
    (hr : List.Forall₂ Rule.Rearranged rs rs') :
    (rs'.map fun r => (r.id, r.exactStrength t s readings)) =
      rs.map fun r => (r.id, r.exactStrength t s readings) := by
  induction hr with
  | nil => rfl
  | cons hrr _ ih =>
    rw [List.map_cons, List.map_cons, ih, hrr.id, Rule.exactStrength_rearranged ht h hrr]

/-- Firings that conclude alike with equal strengths support alike. -/
theorem support_congr {x : ℝ}
    (h : List.Forall₂ (fun f f' : Firing ℝ => f'.rule.id = f.rule.id ∧
      f'.rule.conclusion = f.rule.conclusion ∧ f'.strength = f.strength) fs fs') :
    support i a v fs' x = support i a v fs x := by
  have hfold : ∀ mu, fs'.foldl (supportStep i a v x) mu = fs.foldl (supportStep i a v x) mu := by
    induction h with
    | nil => intro mu; rfl
    | cons hf _ ih =>
      intro mu
      obtain ⟨-, hc, hs⟩ := hf
      rw [List.foldl_cons, List.foldl_cons, ih]
      simp only [supportStep, hc, hs]
  exact hfold 0

/-! ## 3. Rules -/

/-- A firing that implies no negative degree: its strength is not negative and, under the
implication of Lukasiewicz, not above 1. -/
def Mild (i : Implication) (f : Firing ℝ) : Prop :=
  0 ≤ f.strength ∧ (i = .lukasiewicz → f.strength ≤ 1)

/-- **Two steps of accumulation commute.** -/
theorem supportStep_comm {x mu : ℝ} {f g : Firing ℝ} (hf : Mild i f) (hg : Mild i g) :
    supportStep i a v x (supportStep i a v x mu f) g =
      supportStep i a v x (supportStep i a v x mu g) f := by
  have hpos : ∀ k : Firing ℝ, Mild i k →
      0 ≤ i.value k.strength (v.degreeAt k.rule.conclusion.setName x) := fun k hk =>
    Implication.value_nonneg hk.1 (v.degreeAt_mem _ x) hk.2
  by_cases hf0 : f.strength = 0
  · simp [supportStep, hf0]
  · by_cases hg0 : g.strength = 0
    · simp [supportStep, hg0]
    · simp only [supportStep, if_neg hf0, if_neg hg0]
      exact a.value_right_comm mu (hpos f hf) (hpos g hg)

/-- **Support does not depend on the order of the rules.** -/
theorem support_perm {x : ℝ} (h : ∀ f ∈ fs, Mild i f) (hp : fs.Perm fs') :
    support i a v fs x = support i a v fs' x := by
  have keeps : ∀ (mu : ℝ) (f : Firing ℝ), True → Mild i f → True := fun _ _ _ _ => trivial
  exact foldl_perm keeps (fun _ _ _ _ hf hg => supportStep_comm hf hg) hp 0 trivial h

/-- **Support depends neither on the order of the rules nor on that of their conditions.** -/
theorem support_rearranged {x : ℝ} (ht : t.Proper) (hin : InUnit readings)
    (hr : Rule.RearrangedAll rs rs') (h : ∀ f ∈ rs.map (Rule.fire t s readings), Mild i f) :
    support i a v (rs'.map (Rule.fire t s readings)) x =
      support i a v (rs.map (Rule.fire t s readings)) x := by
  have h' : ∀ f ∈ rs'.map (Rule.fire t s readings), Mild i f := by
    intro f hf
    obtain ⟨r', hr', rfl⟩ := List.mem_map.mp hf
    obtain ⟨r, hmem, hrr⟩ := hr.exists_of_mem r' hr'
    have hm := h _ (List.mem_map_of_mem hmem)
    simp only [Mild, Rule.fire] at hm ⊢
    rwa [Rule.exactStrength_rearranged ht hin hrr]
  obtain ⟨mid, hmid, hp⟩ := hr
  rw [support_perm h' (hp.symm.map _)]
  exact support_congr (forall₂_fire ht hin hmid)

/-- Under the maximum a firing that is there already adds nothing. -/
theorem support_maximum_copy {x : ℝ} {f : Firing ℝ} (hf : f ∈ fs) (h : ∀ f ∈ fs, Mild i f)
    (hp : fs'.Perm (f :: fs)) : support i .maximum v fs' x = support i .maximum v fs x := by
  have hself : ∀ mu, supportStep i .maximum v x (supportStep i .maximum v x mu f) f =
      supportStep i .maximum v x mu f := by
    intro mu
    by_cases h0 : f.strength = 0
    · simp [supportStep, h0]
    · simp only [supportStep, if_neg h0]
      exact Accumulation.maximum_value_self mu _
  obtain ⟨before, after, rfl⟩ := List.append_of_mem hf
  have hq : (before ++ f :: after).Perm (f :: (before ++ after)) := List.perm_middle
  have h' : ∀ g ∈ fs', Mild i g := by
    intro g hg
    rcases List.mem_cons.mp (hp.mem_iff.mp hg) with rfl | hg
    · exact h g hf
    · exact h g hg
  rw [support_perm h' (hp.trans (hq.cons f)), support_perm h hq]
  simp only [support, List.foldl_cons, hself]

/-- The rules of an engine fire mildly if the weights are bounded where they have to be. -/
theorem mild_fire {e : Engine ℝ} (ht : t.Proper) (h : InUnit readings)
    (hw : i = .lukasiewicz → ∀ r ∈ e.rulesFor output, r.weight ≤ 1) :
    ∀ f ∈ e.exactFirings t s readings output, Mild i f := by
  intro f hf
  refine ⟨strength_nonneg_of_mem ht h hf, ?_⟩
  intro hi
  obtain ⟨r, hr, rfl⟩ := List.mem_map.mp hf
  exact (Rule.exactStrength_le_weight ht h (accepted_of_mem hr)).trans (hw hi r hr)

/-! ## 4. Inferences -/

/-- Engines with the same settings and variables whose rules support alike answer alike, whatever
rules they list. -/
theorem infer_congr {e e' : Engine ℝ} {n : Noted (Inference ℝ)}
    (hu : e.settings.Uses t s i a z) (hs : e'.settings = e.settings)
    (hd : e'.declared = e.declared) (hv : e.find? output = some v)
    (hn : e.infer inputs output = .ok n)
    (hc : Concludes v (e'.exactFirings t s (e.fuzzify inputs) output))
    (hsup : ∀ x, support i a v (e'.exactFirings t s (e.fuzzify inputs) output) x =
      support i a v (e.exactFirings t s (e.fuzzify inputs) output) x) :
    n.value.fired = e.exactFired t s inputs output ∧
      ∃ n', e'.infer inputs output = .ok n' ∧ n'.value.profile = n.value.profile ∧
        n'.value.crisp = n.value.crisp ∧ n'.notices = n.notices ∧
        n'.value.fired = (e'.rulesFor output).map fun r =>
          (r.id, r.exactStrength t s (e.fuzzify inputs)) := by
  have hfind : ∀ name, e'.find? name = e.find? name := fun name => by
    simp only [find?, declaration?, hd]
  have hfuzz : e'.fuzzify inputs = e.fuzzify inputs := by simp only [fuzzify, hfind]
  have hprofile : e'.exactProfile t s i a v inputs output =
      e.exactProfile t s i a v inputs output := by
    simp only [exactProfile, hs, hfuzz, hsup]
  have hsettle : ∀ p, e'.settle v output p = e.settle v output p := fun p => by
    simp only [settle, hs]
  obtain ⟨w, hw, hcon⟩ := infer_inv hu hn
  cases hv.symm.trans hw
  obtain ⟨c, hset, -, hok⟩ := infer_eq hu hv inputs hcon
  obtain ⟨c', hset', -, hok'⟩ := infer_eq (e := e') (hs ▸ hu) ((hfind output).trans hv) inputs
    (hfuzz ▸ hc)
  rw [hprofile, hsettle, hset] at hset'
  cases hset'
  rw [hok] at hn
  cases hn
  refine ⟨rfl, _, hok', hprofile, rfl, rfl, ?_⟩
  simp only [exactFired, hfuzz]

/-- **Neither the order of the rules nor that of their conditions matters**, and under the maximum
a second copy of a rule does not matter either. -/
theorem infer_rearranged {e e' : Engine ℝ} (h : e.settings.Catalogued)
    (hs : e'.settings = e.settings) (hd : e'.declared = e.declared)
    (hr : Rule.RearrangedAll e.rules e'.rules) (hv : e.find? output = some v)
    (hsets : ∀ r ∈ e.rulesFor output, (v.set? r.conclusion.setName).isSome)
    (hw : e.settings.implication = .regular .lukasiewicz →
      ∀ r ∈ e.rulesFor output, r.weight ≤ 1)
    (inputs : Keyed ℝ) :
    ∃ n, e.infer inputs output = .ok n ∧
      (∃ n', e'.infer inputs output = .ok n' ∧ n'.value.profile = n.value.profile ∧
        n'.value.crisp = n.value.crisp ∧ n'.notices = n.notices ∧
        n'.value.fired.Perm n.value.fired) ∧
      (e.settings.accumulation = .regular .maximum → ∀ r ∈ e.rules, ∀ twice : Engine ℝ,
        twice.settings = e.settings → twice.declared = e.declared →
        twice.rules.Perm (r :: e.rules) →
        ∃ n₂, twice.infer inputs output = .ok n₂ ∧ n₂.value.profile = n.value.profile ∧
          n₂.value.crisp = n.value.crisp) := by
  obtain ⟨t, s, i, a, z, hu⟩ := h.uses
  have hin : InUnit (e.fuzzify inputs) := e.inUnit_fuzzify inputs
  have hmild : ∀ f ∈ e.exactFirings t s (e.fuzzify inputs) output, Mild i f :=
    mild_fire hu.proper hin fun hi => hw (hi ▸ hu.implication)
  have hcon : Concludes v (e.exactFirings t s (e.fuzzify inputs) output) :=
    concludes_of_sets hsets
  obtain ⟨c, -, -, hn⟩ := infer_eq hu hv inputs hcon
  refine ⟨_, hn, ?_, ?_⟩
  · have hrf := rearrangedAll_rulesFor hr output
    have hcon' : Concludes v (e'.exactFirings t s (e.fuzzify inputs) output) := by
      refine concludes_of_sets fun r' hr' => ?_
      obtain ⟨r, hmem, hrr⟩ := hrf.exists_of_mem r' hr'
      rw [hrr.conclusion]
      exact hsets r hmem
    obtain ⟨hfired, n', hn', hprofile, hcrisp, hnotices, hfired'⟩ :=
      infer_congr hu hs hd hv hn hcon' fun x => support_rearranged hu.proper hin hrf hmild
    refine ⟨n', hn', hprofile, hcrisp, hnotices, ?_⟩
    obtain ⟨mid, hmid, hp⟩ := hrf
    rw [hfired, hfired', exactFired, ← map_fired hu.proper hin hmid]
    exact hp.symm.map _
  · intro hmax r hmem twice hs₂ hd₂ hp
    obtain rfl : a = .maximum := Chosen.regular.inj (hu.accumulation.symm.trans hmax)
    have hcon₂ : Concludes v (twice.exactFirings t s (e.fuzzify inputs) output) := by
      refine concludes_of_sets fun r' hr' => ?_
      obtain ⟨hr', ho⟩ := List.mem_filter.mp hr'
      rcases List.mem_cons.mp (hp.mem_iff.mp hr') with rfl | hr'
      · exact hsets _ (List.mem_filter.mpr ⟨hmem, ho⟩)
      · exact hsets _ (List.mem_filter.mpr ⟨hr', ho⟩)
    have hsup : ∀ x, support i .maximum v (twice.exactFirings t s (e.fuzzify inputs) output) x =
        support i .maximum v (e.exactFirings t s (e.fuzzify inputs) output) x := by
      intro x
      rcases rulesFor_perm_of_cons hp hmem output with hp | ⟨hr₁, hp⟩
      · exact (support_perm hmild (hp.symm.map _)).symm
      · exact support_maximum_copy (List.mem_map_of_mem hr₁) hmild (hp.map _)
    obtain ⟨-, n₂, hn₂, hprofile, hcrisp, -⟩ := infer_congr hu hs₂ hd₂ hv hn hcon₂ hsup
    exact ⟨n₂, hn₂, hprofile, hcrisp⟩

/-- Two rules in either order, one of them with its two conditions in either order. -/
theorem infer_rearranged_level :
    ∃ (e e' : Engine ℝ) (n n' : Noted (Inference ℝ)),
      e.rules = [Level.keepsLow "once" 1, Level.eitherLow [⟨"level", "low", false⟩,
        ⟨"level", "high", true⟩]] ∧
      e'.rules = [Level.eitherLow [⟨"level", "high", true⟩, ⟨"level", "low", false⟩],
        Level.keepsLow "once" 1] ∧
      e.settings.implication = .regular .lukasiewicz ∧
      e.infer [("level", 2 / 5)] "level" = .ok n ∧
      e'.infer [("level", 2 / 5)] "level" = .ok n' ∧ n'.value.profile = n.value.profile ∧
      n'.value.crisp = n.value.crisp ∧ n'.notices = n.notices ∧
      n'.value.fired.Perm n.value.fired := by
  have accepted : ∀ cs, ∀ r ∈ [Level.keepsLow "once" 1, Level.eitherLow cs],
      r.fault? = none := by
    intro cs r hr
    rcases List.mem_pair.mp hr with rfl | rfl
    · exact Level.fault?_keepsLow "once" zero_le_one
    · exact Rule.fault?_eq_none_iff.mpr ⟨by norm_num [Level.eitherLow], .inr rfl⟩
  have hc := Settings.catalogued_minimum .maximum .lukasiewicz .maximum .centroid (n := 4)
    (by decide)
  set e := Level.engine _ _ (accepted [⟨"level", "low", false⟩, ⟨"level", "high", true⟩])
  set e' := Level.engine e.settings [Level.eitherLow [⟨"level", "high", true⟩,
    ⟨"level", "low", false⟩], Level.keepsLow "once" 1]
      (fun r hr => accepted _ r (List.mem_pair.mpr (List.mem_pair.mp hr).symm))
  have hr : Rule.RearrangedAll e.rules e'.rules := by
    refine ⟨[Level.keepsLow "once" 1, Level.eitherLow _], ?_, .swap _ _ _⟩
    exact .cons ⟨rfl, .refl _, rfl, rfl, rfl⟩ (.cons ⟨rfl, .swap _ _ _, rfl, rfl, rfl⟩ .nil)
  have hs : e'.settings = e.settings := rfl
  obtain ⟨n, hn, ⟨n', hn', h⟩, -⟩ := infer_rearranged (e := e) hc hs rfl hr (Level.find?_engine _)
    (Level.isSome_set? (by simp [e, Level.engine, Level.keepsLow, Level.eitherLow]) _)
    (fun _ r hr => by
      rcases List.mem_pair.mp (List.mem_of_mem_filter hr) with rfl | rfl
      · exact le_rfl
      · norm_num [Level.eitherLow]) [("level", 2 / 5)]
  exact ⟨e, e', n, n', rfl, rfl, rfl, hn, hn', h⟩

end Engine
end Graded
