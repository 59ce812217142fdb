/-
# Falling back to the middle of the domain

An inference whose profile is nowhere positive answers with the middle of the domain and reports
that no rule fired.  It does so whenever no rule for the output fires.  It also does so in two other
cases, since it looks at the sampled profile and not at the strengths:

* Every rule that fires may miss the points of the grid (`Implication.Misses`), for instance because
  the concluded set lies between two of them.
* What rules imply may be taken away again.  That takes a rule that fires with more than 1, and one
  of the three pairs of an implication and an accumulation that do not tolerate this
  (`Implication.Tolerant`).

`infer_fallsBack_iff` says that there is no third case, and `not_fallsBackOnlySilent` that both
occur.  The support at a point is positive exactly if one rule implies something there
(`support_pos_iff`), by induction over the rules; no method of defuzzification falls back itself
where a degree is positive (`Defuzzifier.notices_eq_nil`).
-/
import Graded.Proofs.Inference

namespace Graded

/-! ## 1. What a rule implies at a point -/

/-- A rule that fires with some strength implies nothing where the concluded set has some degree. -/
def Implication.Misses : Implication → ℝ → ℝ → Prop
  | mamdani, _, mu | larsen, _, mu => mu = 0
  | kleeneDienes, strength, mu => 1 ≤ strength ∧ mu = 0
  | lukasiewicz, strength, mu => 1 + mu ≤ strength

theorem Implication.value_nonpos_iff {i : Implication} {strength mu : ℝ} (hs : 0 < strength)
    (hmu : mu ∈ unitInterval) : i.value strength mu ≤ 0 ↔ i.Misses strength mu := by
  have h0 : mu ≤ 0 ↔ mu = 0 := ⟨fun h => le_antisymm h hmu.1, fun h => h.le⟩
  cases i with
  | mamdani => rw [value_mamdani, min_le_iff, or_iff_right hs.not_ge, h0, Misses]
  | larsen => rw [value_larsen, ← not_lt, mul_pos_iff_of_pos_left hs, not_lt, h0, Misses]
  | kleeneDienes => rw [value_kleeneDienes, max_le_iff, sub_nonpos, h0, Misses]
  | lukasiewicz =>
    rw [value_lukasiewicz, min_le_iff, or_iff_right (by norm_num), Misses]
    constructor <;> intro h <;> linarith

/-! ## 2. Positive support -/

namespace Engine

variable {e : Engine ℝ} {t : TNorm ℝ} {s : TConorm} {i : Implication} {a : Accumulation}
  {z : Defuzzifier} {v : Variable ℝ} {inputs : Keyed ℝ} {output : String} {fs : List (Firing ℝ)}
  {x : ℝ}

/-- A firing leaves a trace at a point: the rule fires and implies something there. -/
def Traces (i : Implication) (v : Variable ℝ) (x : ℝ) (f : Firing ℝ) : Prop :=
  f.strength ≠ 0 ∧ ¬ i.Misses f.strength (v.degreeAt f.rule.conclusion.setName x)

/-- One step of accumulation is positive exactly if something was there or is added. -/
theorem supportStep_pos_iff {mu : ℝ} {f : Firing ℝ} (hmu : 0 ≤ mu) (h0 : 0 ≤ f.strength)
    (h : i.Tolerant a ∨ f.strength ≤ 1) :
    0 ≤ supportStep i a v x mu f ∧
      (0 < supportStep i a v x mu f ↔ 0 < mu ∨ Traces i v x f) := by
  have hd := v.degreeAt_mem f.rule.conclusion.setName x
  unfold supportStep Traces
  split_ifs with hs
  · exact ⟨hmu, by simp [hs]⟩
  · have hadds := Implication.adds_value h0 hd h
    refine ⟨Accumulation.value_nonneg hmu hadds, ?_⟩
    rw [Accumulation.value_pos_iff hmu hadds, ← not_le (a := i.value _ _),
      Implication.value_nonpos_iff (lt_of_le_of_ne h0 (Ne.symm hs)) hd, and_iff_right hs]

/-- **Support is positive exactly where one of the rules leaves a trace.** -/
theorem support_pos_iff (h : ∀ f ∈ fs, 0 ≤ f.strength ∧ (i.Tolerant a ∨ f.strength ≤ 1)) :
    0 < support i a v fs x ↔ ∃ f ∈ fs, Traces i v x f := by
  have hfold : ∀ mu, 0 ≤ mu →
      (0 < fs.foldl (supportStep i a v x) mu ↔ 0 < mu ∨ ∃ f ∈ fs, Traces i v x f) := by
    induction fs with
    | nil => simp
    | cons f fs ih =>
      intro mu hmu
      obtain ⟨h0, ht⟩ := h f List.mem_cons_self
      obtain ⟨hstep, hiff⟩ := supportStep_pos_iff (v := v) (x := x) hmu h0 ht
      rw [List.foldl_cons, ih (fun g hg => h g (List.mem_cons_of_mem _ hg)) _ hstep, hiff,
        List.exists_mem_cons_iff, or_assoc]
  rw [support, hfold 0 le_rfl, or_iff_right (lt_irrefl 0)]

/-- Rules that do not fire support nothing. -/
theorem support_eq_zero (h : ∀ f ∈ fs, f.strength = 0) : support i a v fs x = 0 := by
  induction fs with
  | nil => rfl
  | cons f fs ih =>
    have hf : supportStep i a v x 0 f = 0 := if_pos (h f List.mem_cons_self)
    rw [support, List.foldl_cons, hf]
    exact ih fun g hg => h g (List.mem_cons_of_mem _ hg)

end Engine

/-! ## 3. Supported profiles -/

namespace Profile

variable {p : Profile ℝ} {n : Noted ℝ}

/-- An answer without a notice has none. -/
theorem notices_answer {x : Except (Fault ℝ) ℝ} (h : answer x = .ok n) : n.notices = [] := by
  cases x with
  | error fault => cases h
  | ok x =>
    cases h
    rfl

/-- A profile that is positive somewhere has a positive sum. -/
theorem sum_degrees_pos (h : ∀ mu ∈ p.degrees, 0 ≤ mu) (hpos : ∃ mu ∈ p.degrees, 0 < mu) :
    0 < p.degrees.sum := by
  obtain ⟨mu, hmu, h0⟩ := hpos
  exact h0.trans_le (List.single_le_sum h mu hmu)

theorem notices_centroid (hs : 0 < p.degrees.sum) (hn : p.centroid = .ok n) : n.notices = [] := by
  rw [centroid, Scalar.total_eq_sum, if_neg (by simpa using hs.ne')] at hn
  exact notices_answer hn

theorem notices_bisector (hs : 0 < p.degrees.sum) (hn : p.bisector = .ok n) :
    n.notices = [] := by
  rw [bisector, Scalar.total_eq_sum, if_neg (by simpa using hs.ne')] at hn
  dsimp only at hn
  split at hn
  · cases hn
  · split at hn
    · exact notices_answer hn
    · cases hn

theorem notices_atPeak {choose : List ℝ → Except (Fault ℝ) ℝ}
    (hpos : ∃ mu ∈ p.degrees, 0 < mu) (hn : p.atPeak choose = .ok n) : n.notices = [] := by
  obtain ⟨mu, hmu, h0⟩ := hpos
  obtain ⟨peak, hp, -, hle⟩ := peak?_spec (List.ne_nil_of_mem hmu)
  simp only [atPeak, hp] at hn
  rw [if_neg (not_le.mpr (h0.trans_le (hle mu hmu)))] at hn
  exact notices_answer hn

end Profile

/-- **No method falls back where a degree is positive.** -/
theorem Defuzzifier.notices_eq_nil {z : Defuzzifier} {p : Profile ℝ} {n : Noted ℝ}
    (h : ∀ mu ∈ p.degrees, 0 ≤ mu) (hpos : ∃ mu ∈ p.degrees, 0 < mu) (hn : z.apply p = .ok n) :
    n.notices = [] := by
  have hs := Profile.sum_degrees_pos h hpos
  cases z with
  | centroid => exact Profile.notices_centroid hs hn
  | bisector => exact Profile.notices_bisector hs hn
  | meanOfMaximum => exact Profile.notices_atPeak hpos hn
  | largestOfMaximum => exact Profile.notices_atPeak hpos hn
  | smallestOfMaximum => exact Profile.notices_atPeak hpos hn

/-! ## 4. Inferences -/

/-- The answer is the middle of the domain, and what is reported is that no rule fired. -/
def Inference.FallsBack (v : Variable ℝ) (output : String) (n : Noted (Inference ℝ)) : Prop :=
  n.value.crisp = v.midpoint ∧ n.notices = [.noRuleFired output]

namespace Engine

open Inference (FallsBack)

variable {e : Engine ℝ} {t : TNorm ℝ} {s : TConorm} {i : Implication} {a : Accumulation}
  {z : Defuzzifier} {v : Variable ℝ} {output : String}

/-- **An inference falls back exactly if nothing is supported at any point**, and reports nothing
otherwise. -/
theorem infer_fallsBack (hu : e.settings.Uses t s i a z) (hv : e.find? output = some v)
    (hsets : ∀ r ∈ e.rulesFor output, (v.set? r.conclusion.setName).isSome) (inputs : Keyed ℝ) :
    ∃ n, e.infer inputs output = .ok n ∧
      n.value.profile = e.exactProfile t s i a v inputs output ∧
      (n.notices = [] ∨ FallsBack v output n) ∧
      (FallsBack v output n ↔ ∀ x ∈ v.points e.settings.resolution,
        support i a v (e.exactFirings t s (e.fuzzify inputs) output) x ≤ 0) := by
  obtain ⟨c, hset, -, hn⟩ := infer_eq hu hv inputs (concludes_of_sets hsets)
  have hwithin := within_exactProfile e t s i a v inputs output
  refine ⟨_, hn, rfl, ?_⟩
  have hdegrees : (e.exactProfile t s i a v inputs output).degrees.any (0 < ·) = true ↔
      ∃ x ∈ v.points e.settings.resolution,
        0 < support i a v (e.exactFirings t s (e.fuzzify inputs) output) x := by
    simp [exactProfile, Scalar.clamp_pos_iff]
  unfold settle at hset
  split at hset
  · next hany =>
    rw [hu.defuzzifier, Chosen.defuzzify_regular] at hset
    obtain ⟨mu, hmu, hpos⟩ := List.any_eq_true.mp hany
    have hquiet : c.notices = [] :=
      Defuzzifier.notices_eq_nil hwithin.degrees ⟨mu, hmu, of_decide_eq_true hpos⟩ hset
    refine ⟨.inl hquiet, ?_, ?_⟩
    · intro hback
      rw [FallsBack, hquiet] at hback
      cases hback.2
    · intro hnone
      obtain ⟨x, hx, hsup⟩ := hdegrees.mp hany
      exact absurd (hnone x hx) hsup.not_ge
  · next hnone =>
    cases hset
    refine ⟨.inr ⟨rfl, rfl⟩, fun _ x hx => ?_, fun _ => ⟨rfl, rfl⟩⟩
    by_contra hsup
    exact hnone (hdegrees.mpr ⟨x, hx, not_le.mp hsup⟩)

/-- A rule leaves no trace: it does not fire, or it misses every point of the grid. -/
def Traceless (e : Engine ℝ) (i : Implication) (v : Variable ℝ) (inputs : Keyed ℝ)
    (r : Rule ℝ) : Prop :=
  ∀ m, e.strength r (e.fuzzify inputs) = .ok m →
    m = 0 ∨ ∀ x ∈ v.points e.settings.resolution,
      i.Misses m (v.degreeAt r.conclusion.setName x)

/-- Firings leave no trace if their rules do not, whatever their strengths are. -/
theorem traceless_iff (hu : e.settings.Uses t s i a z) {inputs : Keyed ℝ} {r : Rule ℝ} :
    e.Traceless i v inputs r ↔ ∀ x ∈ v.points e.settings.resolution,
      ¬ Traces i v x (r.fire t s (e.fuzzify inputs)) := by
  simp only [Traceless, strength_eq hu (e.inUnit_fuzzify inputs), Except.ok.injEq, forall_eq',
    Traces, Rule.fire]
  grind

/-- **When an inference falls back to the middle of the domain**: exactly if its profile is 0
everywhere.  It does so if no rule fires, and otherwise, where nothing that is implied can be taken
away again, only if no rule leaves a trace. -/
theorem infer_fallsBack_iff (hc : e.settings.Catalogued)
    (hi : e.settings.implication = .regular i) (ha : e.settings.accumulation = .regular a)
    (hv : e.find? output = some v)
    (hsets : ∀ r ∈ e.rulesFor output, (v.set? r.conclusion.setName).isSome) (inputs : Keyed ℝ) :
    ∃ n, e.infer inputs output = .ok n ∧
      (n.notices = [] ∨ FallsBack v output n) ∧
      (FallsBack v output n ↔ ∀ mu ∈ n.value.profile.degrees, mu = 0) ∧
      ((∀ r ∈ e.rulesFor output, e.strength r (e.fuzzify inputs) = .ok 0) →
        FallsBack v output n) ∧
      (i.Tolerant a ∨ (∀ r ∈ e.rulesFor output, ∀ m,
          e.strength r (e.fuzzify inputs) = .ok m → m ≤ 1) →
        (FallsBack v output n ↔ ∀ r ∈ e.rulesFor output, e.Traceless i v inputs r)) := by
  obtain ⟨t, s, i', a', z, hu⟩ := hc.uses
  cases hi.symm.trans hu.implication
  cases ha.symm.trans hu.accumulation
  have hin := e.inUnit_fuzzify inputs
  obtain ⟨n, hn, hp, hquiet, hback⟩ := infer_fallsBack hu hv hsets inputs
  refine ⟨n, hn, hquiet, ?_, ?_, ?_⟩
  · rw [hback, hp]
    simp only [exactProfile, List.forall_mem_map, Scalar.clamp_eq_zero_iff]
  · intro hsilent
    refine hback.mpr fun x _ => (support_eq_zero fun f hf => ?_).le
    obtain ⟨r, hr, rfl⟩ := List.mem_map.mp hf
    exact Except.ok.inj ((strength_eq hu hin r).symm.trans (hsilent r hr))
  · intro htol
    have hmild : ∀ f ∈ e.exactFirings t s (e.fuzzify inputs) output,
        0 ≤ f.strength ∧ (i.Tolerant a ∨ f.strength ≤ 1) := by
      intro f hf
      refine ⟨strength_nonneg_of_mem hu.proper hin hf, htol.imp_right fun hle => ?_⟩
      obtain ⟨r, hr, rfl⟩ := List.mem_map.mp hf
      exact hle r hr _ (strength_eq hu hin r)
    rw [hback]
    constructor
    · intro h r hr
      refine (traceless_iff hu).mpr fun x hx htrace => (h x hx).not_gt ?_
      exact (support_pos_iff hmild).mpr ⟨_, List.mem_map_of_mem hr, htrace⟩
    · intro h x hx
      by_contra hpos
      obtain ⟨f, hf, htrace⟩ := (support_pos_iff hmild).mp (not_le.mp hpos)
      obtain ⟨r, hr, rfl⟩ := List.mem_map.mp hf
      exact (traceless_iff hu).mp (h r hr) x hx htrace

/-- A rule that keeps the level low is seen at level 0, and at level 1 it does not fire. -/
theorem infer_fallsBack_iff_level :
    ∃ (e : Engine ℝ) (n n' : Noted (Inference ℝ)), e.rules = [Level.keepsLow "once" 1] ∧
      e.settings.Catalogued ∧ Implication.Tolerant .larsen .boundedSum ∧
      e.infer [("level", 0)] "level" = .ok n ∧ n.notices = [] ∧
      e.infer [("level", 1)] "level" = .ok n' ∧ FallsBack Level.level "level" n' := by
  have accepted : ∀ r ∈ [Level.keepsLow "once" 1], r.fault? = none :=
    Rule.accepted_singleton zero_le_one (.inl rfl)
  have hc := Settings.catalogued_minimum .maximum .larsen .boundedSum .centroid (n := 4)
    (by decide)
  set o := Settings.regular _ _ _ _ _ _ _
  have huses : o.Uses .minimum .maximum .larsen .boundedSum .centroid :=
    ⟨trivial, rfl, rfl, rfl, rfl, rfl⟩
  set e := Level.engine o _ accepted
  have hsets := Level.isSome_set? (e := e) (by simp [e, Level.engine, Level.keepsLow]) "level"
  have hfind : e.find? "level" = some Level.level := Level.find?_engine accepted
  obtain ⟨n, hn, hquiet, -, -, htrace⟩ := infer_fallsBack_iff (e := e) hc rfl rfl hfind hsets
    [("level", 0)]
  obtain ⟨n', hn', -, -, hsilent, -⟩ := infer_fallsBack_iff (e := e) hc rfl rfl hfind hsets
    [("level", 1)]
  refine ⟨e, n, n', rfl, hc, trivial, hn, ?_, hn', ?_⟩
  · refine hquiet.resolve_right fun hback => ?_
    have hstrength := strength_eq (e := e) huses (e.inUnit_fuzzify [("level", 0)])
      (Level.keepsLow "once" 1)
    rw [show (Level.keepsLow "once" 1).exactStrength .minimum .maximum
      (e.fuzzify [("level", 0)]) = 1 from
        congrArg Firing.strength (Level.fire_keepsLow (o := o) accepted "once" 1)] at hstrength
    have hmem : (0 : ℝ) ∈ Level.level.points e.settings.resolution :=
      List.mem_of_mem_head? (Scalar.head?_grid Level.level.proper e.settings.positive)
    rcases (htrace (.inl trivial)).mp hback _ List.mem_cons_self 1 hstrength with h | h
    · exact one_ne_zero h
    · have hlow : Level.level.degreeAt "low" 0 = 0 := h 0 hmem
      rw [Level.degreeAt_low_zero] at hlow
      exact one_ne_zero hlow
  · refine hsilent fun r hr => ?_
    have hstrength : (Level.keepsLow "once" 1).exactStrength .minimum .maximum
        (e.fuzzify [("level", 1)]) = Level.level.degreeAt "low" 1 * 1 :=
      Level.exactStrength_keepsLow accepted "once" 1 1
    rw [List.mem_singleton.mp (List.mem_of_mem_filter hr),
      strength_eq (e := e) huses (e.inUnit_fuzzify _), hstrength, Level.degreeAt_low_one, zero_mul]

/-! ## 5. Engines whose rules fire and are not seen -/

/-- Under the given pair, an inference falls back exactly if no rule for the output fires. -/
def FallsBackOnlySilent (i : Implication) (a : Accumulation) : Prop :=
  ∀ (e : Engine ℝ) (v : Variable ℝ) (inputs : Keyed ℝ) (output : String)
    (n : Noted (Inference ℝ)), e.settings.Catalogued →
    e.settings.implication = .regular i → e.settings.accumulation = .regular a →
    e.find? output = some v →
    (∀ r ∈ e.rulesFor output, (v.set? r.conclusion.setName).isSome) →
    e.infer inputs output = .ok n →
    (FallsBack v output n ↔ ∀ r ∈ e.rulesFor output, e.strength r (e.fuzzify inputs) = .ok 0)

/-- A pair does not do so if some rule of an engine fires and nothing is supported at any point. -/
theorem not_fallsBackOnlySilent_of_support (inputs : Keyed ℝ) {r : Rule ℝ}
    (hc : e.settings.Catalogued) (hu : e.settings.Uses t s i a z) (hv : e.find? output = some v)
    (hsets : ∀ r ∈ e.rulesFor output, (v.set? r.conclusion.setName).isSome)
    (hr : r ∈ e.rulesFor output) (hfires : r.exactStrength t s (e.fuzzify inputs) ≠ 0)
    (h : ∀ x ∈ v.points e.settings.resolution,
      support i a v (e.exactFirings t s (e.fuzzify inputs) output) x ≤ 0) :
    ¬ FallsBackOnlySilent i a := by
  intro honly
  obtain ⟨n, hn, -, -, hback⟩ := infer_fallsBack hu hv hsets inputs
  have hsilent := (honly e v inputs output n hc hu.implication hu.accumulation hv hsets hn).mp
    (hback.mpr h) r hr
  rw [strength_eq hu (e.inUnit_fuzzify inputs)] at hsilent
  exact hfires (Except.ok.inj hsilent)

/-- The unit interval in one step. -/
theorem grid_zero_one : Scalar.grid (0 : ℝ) 1 1 = [0, 1] := by
  rw [Scalar.grid_eq zero_lt_one one_pos]
  simp [List.range_succ]

/-- Two rules that keep the level low are not seen if neither end of the domain has support. -/
theorem not_fallsBackOnlySilent_of_level {u w : ℝ} (hu : 0 < u) (hw : 0 ≤ w)
    (h : ∀ x, x = 0 ∨ x = 1 →
      supportStep i a Level.level x
        (supportStep i a Level.level x 0 ⟨Level.keepsLow "first" u, u⟩)
        ⟨Level.keepsLow "second" w, w⟩ ≤ 0) :
    ¬ FallsBackOnlySilent i a := by
  have accepted : ∀ r ∈ [Level.keepsLow "first" u, Level.keepsLow "second" w],
      r.fault? = none := by
    intro r hr
    rcases List.mem_pair.mp hr with rfl | rfl
    · exact Level.fault?_keepsLow "first" hu.le
    · exact Level.fault?_keepsLow "second" hw
  have hc := Settings.catalogued_minimum .maximum i a .centroid (n := 1) one_pos
  set o := Settings.regular _ _ _ _ _ _ _
  set e := Level.engine o _ accepted
  have huses : o.Uses .minimum .maximum i a .centroid := ⟨trivial, rfl, rfl, rfl, rfl, rfl⟩
  have hfirst := Level.fire_keepsLow (o := o) accepted "first" u
  have hfirings : e.exactFirings .minimum .maximum (e.fuzzify [("level", 0)]) "level" =
      [⟨Level.keepsLow "first" u, u⟩, ⟨Level.keepsLow "second" w, w⟩] := by
    rw [← hfirst, ← Level.fire_keepsLow (o := o) accepted "second" w]
    rfl
  refine not_fallsBackOnlySilent_of_support (e := e) (r := Level.keepsLow "first" u)
    [("level", 0)] hc huses (Level.find?_engine accepted)
    (Level.isSome_set? (by simp [e, Level.engine, Level.keepsLow]) _) ?_ ?_ ?_
  · exact List.mem_cons_self
  · exact (congrArg Firing.strength hfirst).trans_ne hu.ne'
  · intro x hx
    rw [show e.settings.resolution = 1 from rfl] at hx
    have hpoints : Level.level.points 1 = [0, 1] := grid_zero_one
    rw [hpoints] at hx
    rw [hfirings]
    exact h x (List.mem_pair.mp hx)

end Engine

namespace Level

/-- A set between the ends of the domain. -/
noncomputable def centred : Variable ℝ :=
  ⟨"level", 0, 1, [⟨"middle", .triangular 0.25 0.5 0.75⟩], by simp, by simp, Real.zero_lt_one⟩

/-- If the level is in the middle it stays there. -/
noncomputable def keepsMiddle : Rule ℝ :=
  ⟨"middle", [⟨"level", "middle", false⟩], ⟨"level", "middle"⟩, 1, .and⟩

/-- The set contains the middle of the domain and neither end of it. -/
theorem degreeAt_middle :
    centred.degreeAt "middle" 0.5 = 1 ∧ ∀ x, x = 0 ∨ x = 1 → centred.degreeAt "middle" x = 0 := by
  have hdegree : ∀ x, centred.degreeAt "middle" x = (Shape.triangular 0.25 0.5 0.75).degree x :=
    fun x => by simp [Variable.degreeAt, Variable.set?, centred]
  constructor
  · rw [hdegree]
    norm_num [Shape.degree, Shape.raw, Shape.triangularRaw, Shape.between, Scalar.clamp_eq]
  · rintro x (rfl | rfl)
    · rw [hdegree]
      norm_num [Shape.degree, Shape.raw, Shape.triangularRaw, Shape.between, Scalar.clamp_eq]
    · rw [hdegree]
      norm_num [Shape.degree, Shape.raw, Shape.triangularRaw, Shape.between, Scalar.clamp_eq]

end Level

namespace Engine

/-- The standard pair does not see a set between the points of the grid. -/
theorem not_fallsBackOnlySilent_standard : ¬ FallsBackOnlySilent .mamdani .maximum := by
  have accepted : ∀ r ∈ [Level.keepsMiddle], r.fault? = none :=
    Rule.accepted_singleton zero_le_one (.inl rfl)
  have hc := Settings.catalogued_minimum .maximum .mamdani .maximum .centroid (n := 1) one_pos
  set o := Settings.regular _ _ _ _ _ _ _
  have huses : o.Uses .minimum .maximum .mamdani .maximum .centroid :=
    ⟨trivial, rfl, rfl, rfl, rfl, rfl⟩
  set e : Engine ℝ := ⟨o, [⟨.own 0, Level.centred⟩], [Level.keepsMiddle], by simp, accepted⟩
  have hfind : e.find? "level" = some Level.centred := by
    simp [find?, declaration?, e, Declared.name, Level.centred]
  have hstrength : Level.keepsMiddle.exactStrength .minimum .maximum
      (e.fuzzify [("level", 0.5)]) = 1 := by
    have hdegree : Grading.degreeOf (Level.centred.fuzzify 0.5) "middle" = 1 :=
      (Variable.degreeOf_fuzzify _ _ _).trans Level.degreeAt_middle.1
    simp [Rule.exactStrength, Rule.joined, Rule.degrees, Level.keepsMiddle, fuzzify, hfind,
      Condition.degree, hdegree, TNorm.value, Scalar.least_eq_min]
  have hfirings : e.exactFirings .minimum .maximum (e.fuzzify [("level", 0.5)]) "level" =
      [Level.keepsMiddle.fire .minimum .maximum (e.fuzzify [("level", 0.5)])] := rfl
  refine not_fallsBackOnlySilent_of_support (e := e) (r := Level.keepsMiddle) [("level", 0.5)]
    hc huses hfind ?_ List.mem_cons_self (hstrength.trans_ne one_ne_zero) ?_
  · intro r hr
    rw [List.mem_singleton.mp (List.mem_of_mem_filter hr)]
    rfl
  · intro x hx
    have hpoints : Level.centred.points 1 = [0, 1] := grid_zero_one
    rw [show e.settings.resolution = 1 from rfl, hpoints] at hx
    have hdegree := Level.degreeAt_middle.2 x (List.mem_pair.mp hx)
    rw [hfirings, support, List.foldl_cons, List.foldl_nil, supportStep_mamdani_maximum x le_rfl]
    simp [Rule.fire, Level.keepsMiddle, hdegree]

/-- **Not only silence makes an inference fall back.**  The standard pair overlooks a set between
the points of the grid, and each of the three other pairs takes away what was implied. -/
theorem not_fallsBackOnlySilent :
    ¬ FallsBackOnlySilent .mamdani .maximum ∧ ¬ FallsBackOnlySilent .larsen .probabilisticSum ∧
      ¬ FallsBackOnlySilent .lukasiewicz .boundedSum ∧
      ¬ FallsBackOnlySilent .lukasiewicz .probabilisticSum := by
  have hset : ∀ id weight, (Level.keepsLow id weight).conclusion.setName = "low" := fun _ _ => rfl
  refine ⟨not_fallsBackOnlySilent_standard, ?_, ?_, ?_⟩
  · -- 2 and 2 cancel to 2 + 2 - 4
    refine not_fallsBackOnlySilent_of_level (u := 2) (w := 2) two_pos zero_le_two ?_
    rintro x (rfl | rfl)
    · norm_num [supportStep, hset, Level.degreeAt_low_zero, Accumulation.value_probabilisticSum,
        Implication.value_larsen]
    · norm_num [supportStep, hset, Level.degreeAt_low_one, Accumulation.value_probabilisticSum,
        Implication.value_larsen]
  · -- the degrees at 0 go from 1 to 1 - 1, those at 1 from 1/2 to 1/2 - 2
    refine not_fallsBackOnlySilent_of_level (u := 1 / 2) (w := 3) one_half_pos zero_le_three ?_
    rintro x (rfl | rfl)
    · norm_num [supportStep, hset, Level.degreeAt_low_zero, Accumulation.value_boundedSum,
        Implication.value_lukasiewicz]
    · norm_num [supportStep, hset, Level.degreeAt_low_one, Accumulation.value_boundedSum,
        Implication.value_lukasiewicz]
  · -- the degrees at 0 go from 1/2 to 1/2 - 1 + 1/2, those at 1 stay below 0
    refine not_fallsBackOnlySilent_of_level (u := 3 / 2) (w := 3) (by norm_num) zero_le_three ?_
    rintro x (rfl | rfl)
    · norm_num [supportStep, hset, Level.degreeAt_low_zero, Accumulation.value_probabilisticSum,
        Implication.value_lukasiewicz]
    · norm_num [supportStep, hset, Level.degreeAt_low_one, Accumulation.value_probabilisticSum,
        Implication.value_lukasiewicz]

end Engine
end Graded
