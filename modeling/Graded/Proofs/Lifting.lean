/-
# Operators in order lead to profiles in order

If no rule weighs more than 1, everything that is computed on the way to a profile is a degree, and
the orders of the operators lift to whole inferences: an engine with one operator replaced by a
greater one infers a profile that is nowhere lower (`pairwise_infersUnder`).  For norms and conorms
that takes an implication that grows with the strength.

* A greater norm or conorm lets every rule fire at least as strongly (`Rule.under_exactStrength`).
* A rule that does not fire is passed over, which is the same as implying 0 everywhere
  (`support_eq_foldl`).  So the support is a fold of one operation over implied degrees, and rises
  with the operation and with the degrees (`support_under`).
* A rule that fires under the lesser operators fires under the greater ones too.  So where these
  answer, those do; the converse fails where a rule concludes on a set that is not there.
-/
import Graded.Proofs.Inference
import Graded.Proofs.Order

namespace Graded

/-! ## 1. Strengths -/

/-- **The conditions of a rule hold together to a greater degree** under greater norms and conorms,
and where each of them holds to a greater degree. -/
theorem Rule.under_joined {t t' : TNorm ℝ} {s s' : TConorm} {r : Rule ℝ}
    {readings others : Readings ℝ} (ht : Raises t.value t'.value) (hs : Raises s.value s'.value)
    (h : List.Forall₂ Under (r.degrees readings) (r.degrees others)) :
    Under (r.joined t s readings) (r.joined t' s' others) := by
  unfold joined
  cases r.connective with
  | and => exact ht.foldl .one h
  | or => exact hs.foldl .zero h
  | other _ => exact hs.foldl .zero h

/-- **A rule fires more strongly under greater norms and conorms.** -/
theorem Rule.under_exactStrength {t t' : TNorm ℝ} {s s' : TConorm} {r : Rule ℝ}
    {readings : Readings ℝ} (ht : Raises t.value t'.value) (hs : Raises s.value s'.value)
    (h : InUnit readings) (hr : r.fault? = none) (hw : r.weight ≤ 1) :
    Under (r.exactStrength t s readings) (r.exactStrength t' s' readings) := by
  have hjoined : Under (r.joined t s readings) (r.joined t' s' readings) :=
    under_joined ht hs (List.forall₂_same.mpr fun mu hmu => .refl (r.degrees_mem h mu hmu))
  have hweight : 0 ≤ r.weight := (fault?_eq_none_iff.mp hr).1
  exact
    { nonneg := mul_nonneg hjoined.nonneg hweight
      le := mul_le_mul_of_nonneg_right hjoined.le hweight
      le_one := mul_le_one₀ hjoined.le_one hweight hw }

namespace Engine

variable {e e' : Engine ℝ} {t t' : TNorm ℝ} {s s' : TConorm} {i i' : Implication}
  {a a' : Accumulation} {z z' : Defuzzifier} {v : Variable ℝ} {inputs : Keyed ℝ}
  {output : String} {fs fs' : List (Firing ℝ)} {x : ℝ}

/-! ## 2. Support as a fold of one operation -/

/-- The degree that a firing implies at a point; 0 if the rule does not fire. -/
noncomputable def impliedAt (i : Implication) (v : Variable ℝ) (x : ℝ) (f : Firing ℝ) : ℝ :=
  if f.strength = 0 then 0 else i.value f.strength (v.degreeAt f.rule.conclusion.setName x)

theorem impliedAt_mem {f : Firing ℝ} (h : f.strength ∈ unitInterval) :
    impliedAt i v x f ∈ unitInterval := by
  unfold impliedAt
  split_ifs
  · exact unitInterval.zero_mem
  · exact Implication.value_mem i h (v.degreeAt_mem _ x)

/-- **Passing over a rule is accumulating 0**, as long as what is accumulated are degrees. -/
theorem support_eq_foldl (h : ∀ f ∈ fs, f.strength ∈ unitInterval) :
    support i a v fs x = (fs.map (impliedAt i v x)).foldl a.value 0 := by
  have hfold : ∀ mu ∈ unitInterval, fs.foldl (supportStep i a v x) mu =
      (fs.map (impliedAt i v x)).foldl a.value mu := by
    induction fs with
    | nil => exact fun mu _ => rfl
    | cons f fs ih =>
      intro mu hmu
      have hd : impliedAt i v x f ∈ unitInterval := impliedAt_mem (h f List.mem_cons_self)
      have hstep : supportStep i a v x mu f = a.value mu (impliedAt i v x f) := by
        unfold supportStep impliedAt
        split_ifs
        · rw [a.value_eq_conorm, TConorm.value_zero _ hmu]
        · rfl
      rw [List.foldl_cons, List.map_cons, List.foldl_cons, hstep]
      refine ih (fun g hg => h g (List.mem_cons_of_mem _ hg)) _ ?_
      exact (a.raises_self (.refl hmu) (.refl hd)).left
  exact hfold 0 unitInterval.zero_mem

/-- A firing under another one: both are of rules that conclude alike, and at least as much is
implied by the other, whatever the degree of the concluded set is. -/
structure ImpliesUnder (i i' : Implication) (f f' : Firing ℝ) : Prop where
  conclusion : f'.rule.conclusion = f.rule.conclusion
  strength : Under f.strength f'.strength
  implied : ∀ mu ∈ unitInterval, Under (i.value f.strength mu) (i'.value f'.strength mu)

/-- A rule that fires under the lesser operators fires under the greater ones. -/
theorem ImpliesUnder.fires {f f' : Firing ℝ} (h : ImpliesUnder i i' f f')
    (h0 : f.strength ≠ 0) : f'.strength ≠ 0 := by
  intro h0'
  exact h0 (le_antisymm (h0' ▸ h.strength.le) h.strength.nonneg)

theorem ImpliesUnder.under_impliedAt {f f' : Firing ℝ} (h : ImpliesUnder i i' f f') :
    Under (impliedAt i v x f) (impliedAt i' v x f') := by
  by_cases h0 : f.strength = 0
  · have hmem : impliedAt i' v x f' ∈ unitInterval := impliedAt_mem h.strength.right
    rw [impliedAt, if_pos h0]
    exact ⟨le_rfl, hmem.1, hmem.2⟩
  · rw [impliedAt, impliedAt, if_neg h0, if_neg (h.fires h0), h.conclusion]
    exact h.implied _ (v.degreeAt_mem _ x)

/-- **Support rises** with the accumulation and with what is implied. -/
theorem support_under (ha : Raises a.value a'.value)
    (h : List.Forall₂ (ImpliesUnder i i') fs fs') :
    Under (support i a v fs x) (support i' a' v fs' x) := by
  have hl : ∀ f ∈ fs, f.strength ∈ unitInterval := by
    induction h with
    | nil => simp
    | cons hf _ ih => exact List.forall_mem_cons.mpr ⟨hf.strength.left, ih⟩
  have hr : ∀ f ∈ fs', f.strength ∈ unitInterval := by
    clear hl
    induction h with
    | nil => simp
    | cons hf _ ih => exact List.forall_mem_cons.mpr ⟨hf.strength.right, ih⟩
  have himplied : List.Forall₂ Under (fs.map (impliedAt i v x)) (fs'.map (impliedAt i' v x)) := by
    rw [List.forall₂_map_left_iff, List.forall₂_map_right_iff]
    exact h.imp fun _ _ hf => hf.under_impliedAt
  rw [support_eq_foldl hl, support_eq_foldl hr]
  exact ha.foldl .zero himplied

/-- If the greater firings conclude on sets of the variable, so do the lesser ones. -/
theorem Concludes.of_impliesUnder (h : List.Forall₂ (ImpliesUnder i i') fs fs')
    (hc : Concludes v fs') : Concludes v fs := by
  induction h with
  | nil => exact hc
  | cons hf _ ih =>
    intro g hg h0
    rcases List.mem_cons.mp hg with rfl | hg
    · rw [← hf.conclusion]
      exact hc _ List.mem_cons_self (hf.fires h0)
    · exact ih (fun g' hg' => hc g' (List.mem_cons_of_mem _ hg')) g hg h0

/-! ## 3. Inferences -/

/-- One engine infers under another one, from the same inputs. -/
structure InfersUnder (inputs : Keyed ℝ) (output : String) (e e' : Engine ℝ) : Prop where
  /-- where all the sets are there that rules conclude on, the greater engine answers -/
  answers : ∀ v, e'.find? output = some v →
    (∀ r ∈ e'.rulesFor output, (v.set? r.conclusion.setName).isSome) →
    ∃ n', e'.infer inputs output = .ok n'
  /-- wherever the greater engine answers, the lesser one does so too, with lower degrees at the
  same points -/
  degrees_le : ∀ n', e'.infer inputs output = .ok n' →
    ∃ n, e.infer inputs output = .ok n ∧
      n.value.profile.points = n'.value.profile.points ∧
      List.Forall₂ (· ≤ ·) n.value.profile.degrees n'.value.profile.degrees

/-- Engines infer in order if their firings are in order. -/
theorem infersUnder_of_firings (e e' : Engine ℝ) (hu : e.settings.Uses t s i a z)
    (hu' : e'.settings.Uses t' s' i' a' z')
    (hn : e'.settings.resolution = e.settings.resolution) (hd : e'.declared = e.declared)
    (ha : Raises a.value a'.value)
    (hf : List.Forall₂ (ImpliesUnder i i')
      (e.exactFirings t s (e.fuzzify inputs) output)
      (e'.exactFirings t' s' (e.fuzzify inputs) output)) :
    InfersUnder inputs output e e' := by
  have hfind : ∀ name, e'.find? name = e.find? name := fun name => by
    simp only [find?, declaration?, hd]
  have hfuzz : e'.fuzzify inputs = e.fuzzify inputs := by simp only [fuzzify, hfind]
  constructor
  · intro v hv hsets
    obtain ⟨c, -, -, hok⟩ := infer_eq hu' hv inputs (concludes_of_sets hsets)
    exact ⟨_, hok⟩
  · intro n' hn'
    obtain ⟨v, hv, hc'⟩ := infer_inv hu' hn'
    have hc : Concludes v (e.exactFirings t s (e.fuzzify inputs) output) :=
      .of_impliesUnder hf (hfuzz ▸ hc')
    obtain ⟨c', -, -, hok'⟩ := infer_eq hu' hv inputs hc'
    obtain ⟨c, -, -, hok⟩ := infer_eq hu ((hfind output).symm.trans hv) inputs hc
    rw [hok'] at hn'
    cases hn'
    refine ⟨_, hok, by simp only [exactProfile, hn], ?_⟩
    simp only [exactProfile, hn, hfuzz]
    rw [List.forall₂_map_left_iff, List.forall₂_map_right_iff, List.forall₂_same]
    exact fun x _ => Scalar.clamp_mono (support_under ha hf).le

/-! ## 4. One operator replaced -/

/-- The engine with another norm. -/
def withNorm (e : Engine ℝ) (t : TNorm ℝ) : Engine ℝ :=
  { e with settings := { e.settings with norm := .regular t } }

/-- The engine with another conorm. -/
def withConorm (e : Engine ℝ) (s : TConorm) : Engine ℝ :=
  { e with settings := { e.settings with conorm := .regular s } }

/-- The engine with another implication. -/
def withImplication (e : Engine ℝ) (i : Implication) : Engine ℝ :=
  { e with settings := { e.settings with implication := .regular i } }

/-- The engine with another accumulation. -/
def withAccumulation (e : Engine ℝ) (a : Accumulation) : Engine ℝ :=
  { e with settings := { e.settings with accumulation := .regular a } }

/-- The rules for an output fire in order if each of them does. -/
theorem forall₂_exactFirings {readings : Readings ℝ} (hr : e'.rules = e.rules)
    (h : ∀ r ∈ e.rulesFor output,
      ImpliesUnder i i' (r.fire t s readings) (r.fire t' s' readings)) :
    List.Forall₂ (ImpliesUnder i i') (e.exactFirings t s readings output)
      (e'.exactFirings t' s' readings output) := by
  have hrules : e'.rulesFor output = e.rulesFor output := by simp only [rulesFor, hr]
  rw [exactFirings, exactFirings, hrules, List.forall₂_map_left_iff, List.forall₂_map_right_iff,
    List.forall₂_same]
  exact h

/-- Greater norms and conorms make rules imply more, if the implication grows with the
strength. -/
theorem impliesUnder_of_raises {r : Rule ℝ} {readings : Readings ℝ}
    (hi : i = .mamdani ∨ i = .larsen) (ht : Raises t.value t'.value)
    (hs : Raises s.value s'.value) (h : InUnit readings) (hr : r.fault? = none)
    (hw : r.weight ≤ 1) : ImpliesUnder i i (r.fire t s readings) (r.fire t' s' readings) where
  conclusion := rfl
  strength := Rule.under_exactStrength ht hs h hr hw
  implied _ hmu := Implication.raises_self hi (Rule.under_exactStrength ht hs h hr hw) (.refl hmu)

/-- **Greater operators infer greater profiles**, if no rule weighs more than 1: along the chain of
implications, along the chain of accumulations and, where the implication grows with the strength,
along the chains of norms and of conorms. -/
theorem pairwise_infersUnder (hc : e.settings.Catalogued)
    (hw : ∀ r ∈ e.rulesFor output, r.weight ≤ 1) (inputs : Keyed ℝ) :
    (Implication.chain.Pairwise fun i i' =>
      InfersUnder inputs output (e.withImplication i) (e.withImplication i')) ∧
    (Accumulation.chain.Pairwise fun a a' =>
      InfersUnder inputs output (e.withAccumulation a) (e.withAccumulation a')) ∧
    (e.settings.implication = .regular .mamdani ∨ e.settings.implication = .regular .larsen →
      (TNorm.chain.Pairwise fun t t' =>
        InfersUnder inputs output (e.withNorm t) (e.withNorm t')) ∧
      TConorm.chain.Pairwise fun s s' =>
        InfersUnder inputs output (e.withConorm s) (e.withConorm s')) := by
  obtain ⟨t, s, i, a, z, hu⟩ := hc.uses
  have hin : InUnit (e.fuzzify inputs) := e.inUnit_fuzzify inputs
  have hstrength : ∀ r ∈ e.rulesFor output,
      r.exactStrength t s (e.fuzzify inputs) ∈ unitInterval := fun r hr =>
    (Rule.under_exactStrength (TNorm.raises_self hu.proper) s.raises_self hin
      (accepted_of_mem hr) (hw r hr)).left
  -- strengths stay what they are if only the implication or the accumulation changes
  have hfires : ∀ {j j' : Implication}, (∀ ⦃m mu : ℝ⦄, m ∈ unitInterval → mu ∈ unitInterval →
      Under (j.value m mu) (j'.value m mu)) → ∀ r ∈ e.rulesFor output,
      ImpliesUnder j j' (r.fire t s (e.fuzzify inputs)) (r.fire t s (e.fuzzify inputs)) :=
    fun hj r hr => ⟨rfl, .refl (hstrength r hr), fun _ hmu => hj (hstrength r hr) hmu⟩
  refine ⟨Implication.pairwise_chain.imp fun {j j'} hj => ?_,
    Accumulation.pairwise_chain.imp fun {k k'} hk => ?_, ?_⟩
  · exact infersUnder_of_firings (e.withImplication j) (e.withImplication j')
      { hu with implication := rfl } { hu with implication := rfl } rfl rfl a.raises_self
      (forall₂_exactFirings rfl (hfires hj))
  · refine infersUnder_of_firings (e.withAccumulation k) (e.withAccumulation k')
      { hu with accumulation := rfl } { hu with accumulation := rfl } rfl rfl hk
      (forall₂_exactFirings rfl (hfires fun _ _ hm hmu => .refl (i.value_mem hm hmu)))
  · intro hgrows
    have hi : i = .mamdani ∨ i = .larsen := by
      rw [hu.implication] at hgrows
      exact hgrows.imp Chosen.regular.inj Chosen.regular.inj
    refine ⟨?_, TConorm.pairwise_chain.imp fun {k k'} hk => ?_⟩
    · have hproper : ∀ k ∈ TNorm.chain, k.Proper := fun k hk => by
        obtain ⟨entry, hmem, rfl⟩ := TNorm.mem_chain.mp hk
        exact TNorm.proper_of_mem_catalogue hmem
      refine TNorm.pairwise_chain.imp_of_mem fun {k k'} hk hk' hkk' => ?_
      exact infersUnder_of_firings (e.withNorm k) (e.withNorm k')
        { hu with norm := rfl, proper := hproper k hk }
        { hu with norm := rfl, proper := hproper k' hk' } rfl rfl a.raises_self
        (forall₂_exactFirings rfl fun r hr =>
          impliesUnder_of_raises hi hkk' s.raises_self hin (accepted_of_mem hr) (hw r hr))
    · exact infersUnder_of_firings (e.withConorm k) (e.withConorm k')
        { hu with conorm := rfl } { hu with conorm := rfl } rfl rfl a.raises_self
        (forall₂_exactFirings rfl fun r hr =>
          impliesUnder_of_raises hi (TNorm.raises_self hu.proper) hk hin (accepted_of_mem hr)
            (hw r hr))

/-- If the level is low and not high it is low, with half the weight. -/
noncomputable def Level.bothLow : Rule ℝ :=
  ⟨"both", [⟨"level", "low", false⟩, ⟨"level", "high", true⟩], ⟨"level", "low"⟩, 0.5, .and⟩

/-- From the drastic norm, under which a rule with two halfway conditions does not fire, to the
minimum. -/
theorem pairwise_infersUnder_level :
    ∃ (e : Engine ℝ) (n n' : Noted (Inference ℝ)), e.rules = [Level.bothLow] ∧
      e.settings.implication = .regular .mamdani ∧ Level.bothLow.weight ≤ 1 ∧
      (e.withNorm .drastic).infer [("level", 2 / 5)] "level" = .ok n ∧
      (e.withNorm .minimum).infer [("level", 2 / 5)] "level" = .ok n' ∧
      n.value.profile.points = n'.value.profile.points ∧
      List.Forall₂ (· ≤ ·) n.value.profile.degrees n'.value.profile.degrees := by
  have hweight : Level.bothLow.weight ≤ 1 := by norm_num [Level.bothLow]
  have accepted : ∀ r ∈ [Level.bothLow], r.fault? = none :=
    Rule.accepted_singleton (by norm_num [Level.bothLow]) (.inl rfl)
  have hc := Settings.catalogued_minimum .maximum .mamdani .probabilisticSum .centroid (n := 4)
    (by decide)
  set e := Level.engine _ _ accepted
  have hw : ∀ r ∈ e.rulesFor "level", r.weight ≤ 1 := by
    intro r hr
    rw [List.mem_singleton.mp (List.mem_of_mem_filter hr)]
    exact hweight
  obtain ⟨-, -, h⟩ := pairwise_infersUnder (e := e) hc hw [("level", 2 / 5)]
  have hunder : InfersUnder [("level", 2 / 5)] "level" (e.withNorm .drastic)
      (e.withNorm .minimum) :=
    (List.pairwise_cons.mp (h (.inl rfl)).1).1 _ (by simp)
  obtain ⟨n', hn'⟩ := hunder.answers Level.level (Level.find?_engine accepted)
    (Level.isSome_set? (by simp [e, withNorm, Level.engine, Level.bothLow]) _)
  obtain ⟨n, hn, hle⟩ := hunder.degrees_le n' hn'
  exact ⟨e, n, n', rfl, rfl, hweight, hn, hn', hle⟩

end Engine
end Graded
