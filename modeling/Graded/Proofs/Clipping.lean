/-
# Clipping sets and firing rules

Degrees of membership in the sets of a variable become a profile in two ways: the sets are clipped
at their degrees and joined, or rules that conclude on the sets fire with the degrees as their
strengths.  Under the standard implication and accumulation both come to the same
(`clipped_agrees`).

They go about it differently.  The first goes through the sets in the order of the variable, leaves
out those without a degree and starts with the first one that is left.  The second goes through the
rules in their order, starts with the profile that is 0 everywhere, passes over rules that do not
fire, and cuts off at the end.  No order matters, since both profiles are least upper bounds, from 0
on, of the same degrees (`clippedHeight_le_iff`, `support_le_iff`).

Without any support the one answers with the middle between the first and the last point and the
other with the middle of the domain.  In exact arithmetic these are the same (`midpoint_points`); in
doubles they are not if the length of the domain overflows (`Doubles.not_clipped_agrees`).
-/
import Graded.Proofs.Failure
import Graded.Clipped

namespace Graded

/-! ## 1. The profile of the clipped sets -/

namespace Variable

variable {v : Variable ℝ} {memberships : Grading ℝ} {x y : ℝ}

/-- A set of a variable is found by its name. -/
theorem set?_of_mem {s : FuzzySet ℝ} (h : s ∈ v.sets) : v.set? s.name = some s := by
  rw [set?, List.find?_eq_some_iff_append]
  obtain ⟨before, after, hsets⟩ := List.append_of_mem h
  refine ⟨beq_self_eq_true s.name, before, after, hsets, fun other hother => ?_⟩
  have hdistinct := v.distinct
  rw [hsets, List.map_append, List.map_cons] at hdistinct
  have hne : other.name ≠ s.name := fun heq =>
    List.disjoint_of_nodup_append hdistinct (List.mem_map_of_mem hother)
      (heq ▸ List.mem_cons_self)
  simpa using hne

theorem degreeAt_of_mem {s : FuzzySet ℝ} (h : s ∈ v.sets) (x : ℝ) :
    v.degreeAt s.name x = s.shape.degree x := by
  rw [degreeAt, set?_of_mem h]

/-- Degrees of membership in some sets of the variable, each set named once. -/
structure Memberships (v : Variable ℝ) (memberships : Grading ℝ) : Prop where
  keys : memberships.keys.Nodup
  sets : ∀ m ∈ memberships, m.1 ∈ v.setNames
  unit : ∀ m ∈ memberships, m.2 ∈ unitInterval

theorem Memberships.degreeOf_of_mem (h : v.Memberships memberships) {m : String × ℝ}
    (hm : m ∈ memberships) : memberships.degreeOf m.1 = m.2 := by
  rw [Grading.degreeOf, (Keyed.lookup_eq_some_iff h.keys).mpr hm, Option.getD_some]

/-- A name without a membership counts as one of degree 0. -/
theorem Memberships.mem_of_degreeOf_pos (h : v.Memberships memberships) {name : String}
    (hpos : 0 < memberships.degreeOf name) : (name, memberships.degreeOf name) ∈ memberships := by
  rw [← Keyed.lookup_eq_some_iff h.keys]
  cases hl : memberships.lookup name with
  | none =>
    rw [Grading.degreeOf, hl] at hpos
    exact absurd hpos (lt_irrefl 0)
  | some mu => rw [Grading.degreeOf, hl, Option.getD_some]

/-- The height of the clipped sets at a point. -/
noncomputable def clippedHeight (v : Variable ℝ) (memberships : Grading ℝ) (x : ℝ) : ℝ :=
  ((v.sets.filter fun s => 0 < memberships.degreeOf s.name).map fun s =>
    min (s.shape.degree x) (memberships.degreeOf s.name)).foldl max 0

/-- Sets that are sampled are joined point by point. -/
theorem joined_map (g : ℝ → ℝ) (gs : List (ℝ → ℝ)) (xs : List ℝ) :
    joined xs ((g :: gs).map xs.map) = xs.map fun x => (gs.map (· x)).foldl max (g x) := by
  induction gs generalizing g with
  | nil => rfl
  | cons h gs ih =>
    have hjoin : List.zipWith Scalar.larger (xs.map g) (xs.map h) =
        xs.map fun x => max (g x) (h x) := by
      simp [List.zipWith_map, List.zipWith_self, Scalar.larger_eq_max]
    exact (congrArg (List.foldl (List.zipWith Scalar.larger) · (gs.map xs.map)) hjoin).trans
      (ih fun x => max (g x) (h x))

/-- The clipped sets join to their height; the first of them needs no 0 to start with. -/
theorem joined_clippedSets (v : Variable ℝ) (memberships : Grading ℝ) (xs : List ℝ) :
    joined xs (v.clippedSets memberships xs) = xs.map (v.clippedHeight memberships) := by
  have hrows : v.clippedSets memberships xs =
      ((v.sets.filter fun s => 0 < memberships.degreeOf s.name).map fun s x =>
        min (s.shape.degree x) (memberships.degreeOf s.name)).map xs.map := by
    simp [clippedSets, FuzzySet.sample, Scalar.lesser_eq_min, Function.comp_def]
  rw [hrows]
  unfold clippedHeight
  cases hactive : v.sets.filter fun s => 0 < memberships.degreeOf s.name with
  | nil => rfl
  | cons s rest =>
    have hs : 0 < memberships.degreeOf s.name := by
      have hmem : s ∈ v.sets.filter fun s => 0 < memberships.degreeOf s.name :=
        hactive ▸ List.mem_cons_self
      simpa using (List.mem_filter.mp hmem).2
    rw [List.map_cons, joined_map]
    refine List.map_congr_left fun x _ => ?_
    rw [List.map_map, List.map_cons, List.foldl_cons,
      max_eq_right (le_min (s.degree_mem x).1 hs.le)]
    rfl

/-- **The profile of the clipped sets** has their height at each point. -/
theorem clipped_eq (v : Variable ℝ) (memberships : Grading ℝ) (steps : ℕ) :
    v.clipped memberships steps =
      .ok ⟨v.points steps, (v.points steps).map (v.clippedHeight memberships)⟩ := by
  have hnarrow : (v.sets.any fun s => 0 < memberships.degreeOf s.name && s.shape.tooWide) =
      false := by
    simp [Shape.tooWide_eq_false]
  have hpoints : v.points? steps = .ok (v.points steps) := by simp [points?]
  simp only [clipped, hpoints, bind, Except.bind, hnarrow]
  rw [clippedAt, joined_clippedSets]
  rfl

/-- **The height is a least upper bound.** -/
theorem clippedHeight_le_iff :
    v.clippedHeight memberships x ≤ y ↔
      0 ≤ y ∧ ∀ s ∈ v.sets, 0 < memberships.degreeOf s.name →
        min (s.shape.degree x) (memberships.degreeOf s.name) ≤ y := by
  simp only [clippedHeight, foldl_max_le_iff, List.forall_mem_map, List.mem_filter, and_imp,
    decide_eq_true_eq]

theorem clippedHeight_mem (v : Variable ℝ) (memberships : Grading ℝ) (x : ℝ) :
    v.clippedHeight memberships x ∈ unitInterval := by
  refine ⟨(clippedHeight_le_iff.mp le_rfl).1, clippedHeight_le_iff.mpr ⟨zero_le_one, ?_⟩⟩
  intro s _ _
  exact (min_le_left _ _).trans (s.degree_mem x).2

/-- The profile of the clipped sets lies over the domain. -/
theorem within_clipped (v : Variable ℝ) (memberships : Grading ℝ) {steps : ℕ} (h : 0 < steps) :
    (⟨v.points steps, (v.points steps).map (v.clippedHeight memberships)⟩ : Profile ℝ).Within
      v.low v.high where
  points _ hx := Scalar.mem_grid v.proper h hx
  degrees mu hmu := by
    obtain ⟨x, -, rfl⟩ := List.mem_map.mp hmu
    exact (v.clippedHeight_mem memberships x).1
  length := List.length_map _
  nonempty := Scalar.grid_ne_nil _ _ _

end Variable

/-! ## 2. Without support -/

/-- Without support every method answers with the middle between the first and the last point. -/
theorem Defuzzifier.apply_of_silent (z : Defuzzifier) {p : Profile ℝ} (hne : p.degrees ≠ [])
    (h : ∀ mu ∈ p.degrees, mu = 0) : z.apply p = p.unsupported := by
  have hsum : Scalar.total p.degrees = 0 := by
    rw [Scalar.total_eq_sum, List.sum_eq_zero h]
  obtain ⟨peak, hpeak, hmem, -⟩ := Profile.peak?_spec hne
  have hat : ∀ choose, p.atPeak choose = p.unsupported := fun choose => by
    simp only [Profile.atPeak, hpeak, if_pos (h peak hmem).le]
  cases z with
  | centroid => exact if_pos (beq_iff_eq.mpr hsum)
  | bisector => exact if_pos (beq_iff_eq.mpr hsum)
  | meanOfMaximum => exact hat _
  | largestOfMaximum => exact hat _
  | smallestOfMaximum => exact hat _

/-- **The middle of the points is the middle of the domain.** -/
theorem Variable.midpoint_points (v : Variable ℝ) {n : ℕ} (hn : 0 < n) (degrees : List ℝ) :
    (⟨v.points n, degrees⟩ : Profile ℝ).midpoint = .ok v.midpoint := by
  have hfirst : (v.points n).head? = some v.low := Scalar.head?_grid v.proper hn
  have hlast : (v.points n).getLast? = some v.high := Scalar.getLast?_grid hn
  simp only [Profile.midpoint, hfirst, hlast]
  rfl

/-! ## 3. The support of rules -/

namespace Engine

variable {e : Engine ℝ} {z : Defuzzifier} {v : Variable ℝ} {memberships : Grading ℝ}
  {fs : List (Firing ℝ)} {p : Profile ℝ} {inputs : Keyed ℝ} {output : String} {x y : ℝ}

/-- **The support is a least upper bound.** -/
theorem support_le_iff :
    support .mamdani .maximum v fs x ≤ y ↔
      0 ≤ y ∧ ∀ f ∈ fs, min f.strength (v.degreeAt f.rule.conclusion.setName x) ≤ y := by
  have hfold : ∀ mu, 0 ≤ mu → fs.foldl (supportStep .mamdani .maximum v x) mu =
      (fs.map fun f => min f.strength (v.degreeAt f.rule.conclusion.setName x)).foldl max mu := by
    induction fs with
    | nil => exact fun mu _ => rfl
    | cons f fs ih =>
      intro mu hmu
      rw [List.foldl_cons, supportStep_mamdani_maximum x hmu, ih _ (le_max_of_le_left hmu)]
      rfl
  rw [support, hfold 0 le_rfl, foldl_max_le_iff, List.forall_mem_map]

/-- The rules of the firings conclude on the names of the memberships, and fire with their
degrees. -/
def Carries (fs : List (Firing ℝ)) (memberships : Grading ℝ) : Prop :=
  (fs.map fun f => (f.rule.conclusion.setName, f.strength)).Perm memberships

/-- What holds of every firing holds of every membership. -/
theorem Carries.forall_iff (h : Carries fs memberships) {P : String → ℝ → Prop} :
    (∀ f ∈ fs, P f.rule.conclusion.setName f.strength) ↔ ∀ m ∈ memberships, P m.1 m.2 := by
  constructor
  · intro hfs m hm
    obtain ⟨f, hf, rfl⟩ := List.mem_map.mp (h.mem_iff.mpr hm)
    exact hfs f hf
  · intro hm f hf
    exact hm _ (h.mem_iff.mp (List.mem_map_of_mem hf))

/-! ## 4. The same profile -/

/-- **Rules that carry memberships support the clipped sets**, whatever their order is. -/
theorem support_eq_clippedHeight (hm : v.Memberships memberships) (hc : Carries fs memberships)
    (x : ℝ) : support .mamdani .maximum v fs x = v.clippedHeight memberships x := by
  refine eq_of_forall_ge_iff fun y => ?_
  rw [support_le_iff, Variable.clippedHeight_le_iff,
    hc.forall_iff (P := fun name mu => min mu (v.degreeAt name x) ≤ y)]
  refine and_congr_right fun hy => ⟨fun h s hs hpos => ?_, fun h m hmem => ?_⟩
  · rw [← v.degreeAt_of_mem hs, min_comm]
    exact h (s.name, memberships.degreeOf s.name) (hm.mem_of_degreeOf_pos hpos)
  · obtain ⟨s, hs, hname⟩ := List.mem_map.mp (hm.sets m hmem)
    have hdegree : memberships.degreeOf s.name = m.2 := by
      rw [hname, hm.degreeOf_of_mem hmem]
    -- a rule that carries 0 stays below every bound, and its set is left out
    rcases (hm.unit m hmem).1.eq_or_lt with h0 | hpos
    · exact (min_le_left _ _).trans (h0 ▸ hy)
    · rw [← hname, v.degreeAt_of_mem hs, min_comm, ← hdegree]
      exact h s hs (hdegree ▸ hpos)

/-- Rules that carry memberships conclude on sets of the variable. -/
theorem Carries.concludes (hc : Carries fs memberships) (hm : v.Memberships memberships) :
    Concludes v fs := by
  have hsome : ∀ m ∈ memberships, (v.set? m.1).isSome := by
    intro m hmem
    obtain ⟨s, hs, hname⟩ := List.mem_map.mp (hm.sets m hmem)
    rw [← hname, v.set?_of_mem hs, Option.isSome_some]
  intro f hf _
  exact (hc.forall_iff (P := fun name _ => (v.set? name).isSome)).mpr hsome f hf

/-- **The two profiles are the same.** -/
theorem aggregate_eq_clipped (hi : e.settings.implication = .regular .mamdani)
    (ha : e.settings.accumulation = .regular .maximum) (hm : v.Memberships memberships)
    (hc : Carries fs memberships) :
    e.aggregate fs v = v.clipped memberships e.settings.resolution := by
  -- the other three operators take no part in it
  let e' : Engine ℝ := { e with
    settings := { e.settings with
      norm := .regular .minimum
      conorm := .regular .maximum
      defuzzifier := .regular .centroid } }
  have hu : e'.settings.Uses .minimum .maximum .mamdani .maximum .centroid :=
    ⟨trivial, rfl, rfl, hi, ha, rfl⟩
  have hprofile := aggregate_eq hu (hc.concludes hm)
  rw [Variable.clipped_eq]
  refine (show e.aggregate fs v = e'.aggregate fs v from rfl).trans (hprofile.trans ?_)
  have hclamp : ∀ x, Scalar.clamp (support .mamdani .maximum v fs x) =
      v.clippedHeight memberships x := by
    intro x
    rw [support_eq_clippedHeight hm hc, Scalar.clamp_eq_self_iff]
    exact v.clippedHeight_mem memberships x
  simp only [hclamp]
  rfl

/-! ## 5. The same crisp value -/

/-- An inference settles what the defuzzifier makes of the profile, up to what is reported. -/
theorem settle_eq_apply (hz : e.settings.defuzzifier = .regular z)
    (hp : p.Within v.low v.high) (hpoints : p.points = v.points e.settings.resolution)
    (output : String) :
    ∃ n d, e.settle v output p = .ok n ∧ z.apply p = .ok d ∧ n.value = d.value := by
  unfold settle
  split
  · obtain ⟨d, hd, -⟩ := z.apply_within hp
    exact ⟨d, d, by rw [hz, Chosen.defuzzify_regular, hd], hd, rfl⟩
  · next hnone =>
    have hsilent : ∀ mu ∈ p.degrees, mu = 0 := by
      intro mu hmu
      refine le_antisymm (not_lt.mp fun hpos => hnone ?_) (hp.degrees mu hmu)
      exact List.any_eq_true.mpr ⟨mu, hmu, decide_eq_true hpos⟩
    have hne : p.degrees ≠ [] := by
      rw [← List.length_pos_iff_ne_nil, hp.length, List.length_pos_iff_ne_nil]
      exact hp.nonempty
    have hmiddle : p.midpoint = .ok v.midpoint := by
      have hpair : p = ⟨v.points e.settings.resolution, p.degrees⟩ := by rw [← hpoints]
      rw [hpair]
      exact v.midpoint_points e.settings.positive _
    refine ⟨_, ⟨v.midpoint, [.noSupport]⟩, rfl, ?_, rfl⟩
    rw [z.apply_of_silent hne hsilent, Profile.unsupported, hmiddle]
    rfl

/-- An inference from the firings of its rules on. -/
theorem infer_of_firings {c : Noted ℝ} (hv : e.find? output = some v)
    (hf : e.firings (e.fuzzify inputs) output = .ok fs) (hp : e.aggregate fs v = .ok p)
    (hc : e.settle v output p = .ok c) :
    e.infer inputs output =
      .ok (c.map fun x => ⟨x, fs.map fun f => (f.rule.id, f.strength), p⟩) := by
  have ho : e.output output = .ok v := by simp [Engine.output, hv]
  rw [infer, ho, fuzzify?_eq]
  simp only [bind, Except.bind, hf, hp, hc, pure, Except.pure]

/-- **Clipping sets and firing rules agree.**  Where the weaker of two degrees is implied and the
strongest counts, rules that carry memberships, in any order, come to the profile of the clipped
sets.  So an inference of which they are the firings has the crisp value that comes of clipping,
also where all memberships are 0. -/
theorem clipped_agrees (hi : e.settings.implication = .regular .mamdani)
    (ha : e.settings.accumulation = .regular .maximum) (hm : v.Memberships memberships) :
    (∀ fs, Carries fs memberships →
      e.aggregate fs v = v.clipped memberships e.settings.resolution) ∧
    ∀ fs z inputs output, e.settings.defuzzifier = .regular z → e.find? output = some v →
      e.firings (e.fuzzify inputs) output = .ok fs → Carries fs memberships →
      ∃ n d, e.infer inputs output = .ok n ∧
        v.clipped memberships e.settings.resolution = .ok n.value.profile ∧
        v.defuzzify z memberships e.settings.resolution = .ok d ∧ n.value.crisp = d.value := by
  refine ⟨fun fs hc => aggregate_eq_clipped hi ha hm hc, ?_⟩
  intro fs z inputs output hz hv hf hc
  have hclipped := v.clipped_eq memberships e.settings.resolution
  obtain ⟨n, d, hn, hd, heq⟩ := settle_eq_apply hz
    (v.within_clipped memberships e.settings.positive) rfl output
  have hinfer := infer_of_firings hv hf ((aggregate_eq_clipped hi ha hm hc).trans hclipped) hn
  refine ⟨_, d, hinfer, hclipped, ?_, heq⟩
  simp only [Variable.defuzzify, hclipped, bind, Except.bind, hd]

/-! ## 6. Memberships as rules -/

/-- The rule that a variable is in one of its sets, without conditions and to a given degree. -/
def asserted (output : String) (m : String × ℝ) : Rule ℝ := ⟨m.1, [], ⟨output, m.1⟩, m.2, .and⟩

/-- An engine with one variable that asserts memberships in its sets. -/
def asserting (o : Settings ℝ) (v : Variable ℝ) (memberships : Grading ℝ)
    (hm : v.Memberships memberships) : Engine ℝ :=
  ⟨o, [⟨.own 0, v⟩], memberships.map (asserted v.name), by simp, by
    intro r hr
    obtain ⟨m, hmem, rfl⟩ := List.mem_map.mp hr
    exact Rule.fault?_eq_none_iff.mpr ⟨(hm.unit m hmem).1, .inl rfl⟩⟩

theorem find?_asserting (o : Settings ℝ) (hm : v.Memberships memberships) :
    (asserting o v memberships hm).find? v.name = some v := by
  simp [find?, declaration?, asserting, Declared.name]

/-- **Every membership is carried** by the firings of some inference, whatever the settings are. -/
theorem exists_carries (o : Settings ℝ) (hm : v.Memberships memberships) (inputs : Keyed ℝ) :
    ∃ fs, (asserting o v memberships hm).firings
        ((asserting o v memberships hm).fuzzify inputs) v.name = .ok fs ∧
      Carries fs memberships := by
  have hrules : (asserting o v memberships hm).rulesFor v.name =
      memberships.map (asserted v.name) := by
    refine List.filter_eq_self.mpr fun r hr => ?_
    obtain ⟨m, -, rfl⟩ := List.mem_map.mp hr
    exact beq_self_eq_true v.name
  refine ⟨(memberships.map (asserted v.name)).map fun r => ⟨r, 1 * r.weight⟩, ?_, ?_⟩
  · rw [firings, hrules]
    refine mapM_ok fun r hr => ?_
    obtain ⟨m, -, rfl⟩ := List.mem_map.mp hr
    rw [strength, Rule.strength_nil rfl rfl]
    rfl
  · simp [Carries, asserted, Function.comp_def]

end Engine

namespace Level

/-- The level is a little low and rather high, or neither of the two. -/
theorem memberships_level {low high : ℝ} (hl : low ∈ unitInterval) (hh : high ∈ unitInterval) :
    level.Memberships [("low", low), ("high", high)] where
  keys := by simp [Keyed.keys]
  sets := by simp [level, Variable.setNames]
  unit := by simpa using ⟨hl, hh⟩

end Level

namespace Engine

/-- Memberships of which one is 0, and memberships that are all 0. -/
theorem clipped_agrees_level :
    ∃ e e' : Engine ℝ, e.settings.implication = .regular .mamdani ∧
      e.settings.accumulation = .regular .maximum ∧
      Level.level.Memberships [("low", 0.25), ("high", 0)] ∧
      Level.level.Memberships [("low", 0), ("high", 0)] ∧
      (∃ n d, e.infer [] "level" = .ok n ∧
        Level.level.defuzzify .centroid [("low", 0.25), ("high", 0)] 4 = .ok d ∧
        n.value.crisp = d.value) ∧
      ∃ n d, e'.infer [] "level" = .ok n ∧
        Level.level.defuzzify .centroid [("low", 0), ("high", 0)] 4 = .ok d ∧
        n.value.crisp = d.value := by
  have hm : Level.level.Memberships [("low", 0.25), ("high", 0)] :=
    Level.memberships_level ⟨by norm_num, by norm_num⟩ unitInterval.zero_mem
  have hm0 : Level.level.Memberships [("low", 0), ("high", 0)] :=
    Level.memberships_level unitInterval.zero_mem unitInterval.zero_mem
  set o : Settings ℝ := .regular .minimum .maximum .mamdani .maximum .centroid 4 (by decide)
  obtain ⟨fs, hf, hc⟩ := exists_carries o hm []
  obtain ⟨fs', hf', hc'⟩ := exists_carries o hm0 []
  obtain ⟨n, d, hn, -, hd, heq⟩ := (clipped_agrees (e := asserting o _ _ hm) rfl rfl hm).2 fs
    .centroid [] "level" rfl (find?_asserting o hm) hf hc
  obtain ⟨n', d', hn', -, hd', heq'⟩ := (clipped_agrees (e := asserting o _ _ hm0) rfl rfl hm0).2
    fs' .centroid [] "level" rfl (find?_asserting o hm0) hf' hc'
  exact ⟨_, _, rfl, rfl, hm, hm0, ⟨n, d, hn, hd, heq⟩, n', d', hn', hd', heq'⟩

end Engine

/-! ## 7. Doubles -/

namespace Doubles

/-- Low and high over a domain whose length is beyond the greatest double. -/
def endless : Variable Float :=
  { level with low := -1e308, high := 1e308, proper := by decide +kernel }

/-- The level is not low at all. -/
def notLow : Rule Float := ⟨"notLow", [], ⟨"level", "low"⟩, 0, .and⟩

/-- An engine that asserts no more than that. -/
def silent : Engine Float :=
  ⟨.regular .minimum .maximum .mamdani .maximum .centroid 4 (Nat.succ_pos 3), [⟨.own 0, endless⟩],
    [notLow], by simp, List.forall_mem_singleton.mpr (if_neg (by decide +kernel))⟩

/-- **In doubles the two can disagree.**  The first point of the domain is no number, so there is no
middle between it and the last one, while there is a middle of the domain. -/
theorem not_clipped_agrees :
    silent.find? "level" = some endless ∧
      silent.settings.implication = .regular .mamdani ∧
      silent.settings.accumulation = .regular .maximum ∧
      silent.firings [] "level" = .ok [⟨notLow, 1 * 0⟩] ∧
      ∃ n d, silent.infer [] "level" = .ok n ∧
        endless.defuzzify .centroid [("low", 0)] 4 = .ok d ∧
        n.value.crisp == 0 ∧ n.value.crisp ≠ d.value := by
  have hboth : passes (fun n => n.value.crisp == 0 && !Scalar.undefined n.value.crisp &&
      passes (fun d => Scalar.undefined d.value) (endless.defuzzify .centroid [("low", 0)] 4))
      (silent.infer [] "level") := by
    decide +kernel
  obtain ⟨n, hn, htest⟩ := exists_of_passes hboth
  obtain ⟨hcrisp, hclipped⟩ := Bool.and_eq_true_iff.mp htest
  obtain ⟨hzero, hdefined⟩ := Bool.and_eq_true_iff.mp hcrisp
  obtain ⟨d, hd, hundefined⟩ := exists_of_passes hclipped
  refine ⟨rfl, rfl, rfl, rfl, n, d, hn, hd, hzero, fun heq => ?_⟩
  simp [heq, hundefined] at hdefined

end Doubles
end Graded
