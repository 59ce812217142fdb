/-
# When an inference fails

In exact arithmetic an inference fails for one of two reasons only, and for both it is a name that
is missing (`Engine.infer_eq_error_iff`):

* the output is not declared;
* a rule for the output fires and concludes on a set that the output does not have (`Misfires`); the
  first such rule is the one that is named.

Nothing else fails: norms do not divide by zero on degrees (`TNorm.apply_eq`), nor do shapes on
their slopes (`Shape.width_pos`), no method of defuzzification is without an answer on a profile
(`Defuzzifier.apply_within`), and what the conditions of a rule name need not be there at all.  A
misspelt conclusion therefore fails on some inputs and not on others.

Doubles are not exact.  Weights that are finite, but so large that their product is not, leave a
degree undefined, and then no point has the greatest degree (`Doubles.infer_overflow`).
-/
import Graded.Proofs.Inference

namespace Graded

namespace Engine

variable {e : Engine ℝ} {t : TNorm ℝ} {s : TConorm} {i : Implication} {a : Accumulation}
  {z : Defuzzifier} {v : Variable ℝ} {inputs : Keyed ℝ} {output : String}

/-! ## 1. Rules that misfire -/

/-- The rule fires, but the variable does not have the set that it concludes on. -/
def Misfires (e : Engine ℝ) (inputs : Keyed ℝ) (v : Variable ℝ) (r : Rule ℝ) : Prop :=
  (∃ m, e.strength r (e.fuzzify inputs) = .ok m ∧ m ≠ 0) ∧ v.set? r.conclusion.setName = none

theorem misfires_iff (hu : e.settings.Uses t s i a z) {r : Rule ℝ} :
    e.Misfires inputs v r ↔
      r.exactStrength t s (e.fuzzify inputs) ≠ 0 ∧ v.set? r.conclusion.setName = none := by
  simp [Misfires, strength_eq hu (e.inUnit_fuzzify inputs)]

/-- Rules conclude on a variable exactly if none of them misfires. -/
theorem concludes_iff (hu : e.settings.Uses t s i a z) {rs : List (Rule ℝ)} :
    Concludes v (rs.map (Rule.fire t s (e.fuzzify inputs))) ↔
      ∀ r ∈ rs, ¬ e.Misfires inputs v r := by
  simp only [Concludes, List.forall_mem_map, misfires_iff hu, not_and, Rule.fire,
    Option.isSome_iff_ne_none]

/-- **The first rule that misfires ends the accumulation.** -/
theorem aggregate_of_misfires (hu : e.settings.Uses t s i a z) {before after : List (Rule ℝ)}
    {r : Rule ℝ} (hb : ∀ q ∈ before, ¬ e.Misfires inputs v q) (hr : e.Misfires inputs v r) :
    e.aggregate ((before ++ r :: after).map (Rule.fire t s (e.fuzzify inputs))) v =
      .error (.noSet v.name r.conclusion.setName) := by
  obtain ⟨h0, hset⟩ := (misfires_iff hu).mp hr
  rw [aggregate, List.map_append, List.map_cons, List.foldlM_append,
    foldlM_accumulate hu (fun _ => 0) ((concludes_iff hu).mpr hb)]
  simp only [List.foldlM_cons, bind, Except.bind]
  rw [accumulate_noSet (f := r.fire t s (e.fuzzify inputs)) h0 hset]
  rfl

/-- Of the rules that misfire one is the first. -/
theorem exists_first_misfires {rs : List (Rule ℝ)} (h : ∃ r ∈ rs, e.Misfires inputs v r) :
    ∃ before r after, rs = before ++ r :: after ∧ (∀ q ∈ before, ¬ e.Misfires inputs v q) ∧
      e.Misfires inputs v r := by
  classical
  obtain ⟨r, hr, hm⟩ := h
  have hsome : (rs.find? fun q => decide (e.Misfires inputs v q)).isSome :=
    List.find?_isSome.mpr ⟨r, hr, decide_eq_true hm⟩
  obtain ⟨first, hfirst⟩ := Option.isSome_iff_exists.mp hsome
  obtain ⟨hmis, before, after, heq, hb⟩ := List.find?_eq_some_iff_append.mp hfirst
  exact ⟨before, first, after, heq, fun q hq => by simpa using hb q hq, of_decide_eq_true hmis⟩

/-! ## 2. Inferences that fail -/

/-- An inference ends at the first rule that misfires. -/
theorem infer_of_misfires (hu : e.settings.Uses t s i a z) (hv : e.find? output = some v)
    {before after : List (Rule ℝ)} {r : Rule ℝ} (h : e.rulesFor output = before ++ r :: after)
    (hb : ∀ q ∈ before, ¬ e.Misfires inputs v q) (hr : e.Misfires inputs v r) :
    e.infer inputs output = .error (.noSet v.name r.conclusion.setName) := by
  have ho : e.output output = .ok v := by simp [Engine.output, hv]
  have hf := firings_eq hu (e.inUnit_fuzzify inputs) output
  rw [exactFirings, h] at hf
  rw [infer, ho, fuzzify?_eq]
  simp only [bind, Except.bind, hf, aggregate_of_misfires hu hb hr]

/-- **What an inference fails with**: that the output is not declared, or that the first rule that
misfires concludes on nothing. -/
theorem infer_eq_error_iff (hc : e.settings.Catalogued) {fault : Fault ℝ} :
    e.infer inputs output = .error fault ↔
      (e.find? output = none ∧ fault = .noOutput output) ∨
      ∃ v before r after, e.find? output = some v ∧ e.rulesFor output = before ++ r :: after ∧
        (∀ q ∈ before, ¬ e.Misfires inputs v q) ∧ e.Misfires inputs v r ∧
        fault = .noSet v.name r.conclusion.setName := by
  obtain ⟨t, s, i, a, z, hu⟩ := hc.uses
  constructor
  · intro hfail
    cases hv : e.find? output with
    | none =>
      rw [infer_of_not_declared hv] at hfail
      exact .inl ⟨rfl, (Except.error.inj hfail).symm⟩
    | some v =>
      have hmis : ∃ r ∈ e.rulesFor output, e.Misfires inputs v r := by
        by_contra hnone
        push Not at hnone
        obtain ⟨c, -, -, hn⟩ := infer_eq hu hv inputs ((concludes_iff hu).mpr hnone)
        rw [hn] at hfail
        cases hfail
      obtain ⟨before, r, after, heq, hb, hr⟩ := exists_first_misfires hmis
      rw [infer_of_misfires hu hv heq hb hr] at hfail
      exact .inr ⟨v, before, r, after, rfl, heq, hb, hr, (Except.error.inj hfail).symm⟩
  · rintro (⟨hv, rfl⟩ | ⟨v, before, r, after, hv, heq, hb, hr, rfl⟩)
    · exact infer_of_not_declared hv
    · exact infer_of_misfires hu hv heq hb hr

/-- **When an inference fails**: exactly if its output is not declared or one of the rules for it
misfires.  Either way it is a name that is missing. -/
theorem infer_fails_iff (hc : e.settings.Catalogued) (inputs : Keyed ℝ) (output : String) :
    ((∃ fault, e.infer inputs output = .error fault) ↔
      e.find? output = none ∨
      ∃ v, e.find? output = some v ∧ ∃ r ∈ e.rulesFor output, e.Misfires inputs v r) ∧
    ∀ fault, e.infer inputs output = .error fault → fault.category = .absentKey := by
  refine ⟨⟨?_, ?_⟩, ?_⟩
  · rintro ⟨fault, hfail⟩
    rcases (infer_eq_error_iff hc).mp hfail with ⟨hv, -⟩ | ⟨v, before, r, after, hv, heq, -, hr, -⟩
    · exact .inl hv
    · exact .inr ⟨v, hv, r, by simp [heq], hr⟩
  · rintro (hv | ⟨v, hv, hmis⟩)
    · exact ⟨_, infer_of_not_declared hv⟩
    · obtain ⟨before, r, after, heq, hb, hr⟩ := exists_first_misfires hmis
      exact ⟨_, (infer_eq_error_iff hc).mpr (.inr ⟨v, before, r, after, hv, heq, hb, hr, rfl⟩)⟩
  · intro fault hfail
    rcases (infer_eq_error_iff hc).mp hfail with ⟨-, rfl⟩ | ⟨v, before, r, after, -, -, -, -, rfl⟩
    · rfl
    · rfl

end Engine

namespace Level

/-- If the level is low it is in a set whose name is misspelt. -/
noncomputable def misspelt : Rule ℝ := { keepsLow "misspelt" 1 with conclusion := ⟨"level", "lwo"⟩ }

end Level

namespace Engine

/-- A misspelt conclusion is noticed at level 0, where the rule fires, and not at level 1. -/
theorem infer_fails_iff_level :
    ∃ e : Engine ℝ, e.settings.Catalogued ∧ e.rules = [Level.misspelt] ∧
      e.find? "level" = some Level.level ∧ e.Misfires [("level", 0)] Level.level Level.misspelt ∧
      (∃ fault, e.infer [("level", 0)] "level" = .error fault ∧ fault.category = .absentKey) ∧
      ¬ ∃ fault, e.infer [("level", 1)] "level" = .error fault := by
  have hc := Settings.catalogued_minimum .maximum .mamdani .maximum .centroid (n := 4) (by decide)
  set o := Settings.regular _ _ _ _ _ _ _
  have hu : o.Uses .minimum .maximum .mamdani .maximum .centroid :=
    ⟨trivial, rfl, rfl, rfl, rfl, rfl⟩
  have accepted : ∀ r ∈ [Level.misspelt], r.fault? = none :=
    Rule.accepted_singleton zero_le_one (.inl rfl)
  set e := Level.engine o _ accepted
  have hfind : e.find? "level" = some Level.level := Level.find?_engine _
  have hstrength : ∀ x, Level.misspelt.exactStrength .minimum .maximum (e.fuzzify [("level", x)]) =
      Level.level.degreeAt "low" x * 1 :=
    Level.exactStrength_keepsLow accepted "misspelt" 1
  have hmis : e.Misfires [("level", 0)] Level.level Level.misspelt := by
    rw [misfires_iff (e := e) hu, hstrength, Level.degreeAt_low_zero]
    simp [Level.misspelt, Level.level, Variable.set?]
  have hnot : ¬ e.Misfires [("level", 1)] Level.level Level.misspelt := by
    rw [misfires_iff (e := e) hu, hstrength, Level.degreeAt_low_one]
    simp
  obtain ⟨hfails, hkey⟩ := infer_fails_iff (e := e) hc [("level", 0)] "level"
  obtain ⟨fault, hfault⟩ := hfails.mpr (.inr ⟨_, hfind, _, List.mem_cons_self, hmis⟩)
  refine ⟨e, hc, rfl, hfind, hmis, ⟨fault, hfault, hkey fault hfault⟩, ?_⟩
  rw [(infer_fails_iff (e := e) hc [("level", 1)] "level").1, hfind]
  rintro (hnone | ⟨v, hv, r, hr, hmisfires⟩)
  · cases hnone
  · cases hv
    rw [List.mem_singleton.mp (List.mem_of_mem_filter hr)] at hmisfires
    exact hnot hmisfires

end Engine

/-! ## 3. Doubles -/

namespace Doubles

/-- Low and high over the unit interval. -/
def level : Variable Float :=
  ⟨"level", 0, 1, [⟨"low", .leftShoulder 0 1⟩, ⟨"high", .rightShoulder 0 1⟩], by simp, by simp,
    Scalar.zero_lt_one⟩

/-- If the level is low it is in the given set, with a weight. -/
def ifLow (setName : String) (weight : Float) : Rule Float :=
  ⟨setName, [⟨"level", "low", false⟩], ⟨"level", setName⟩, weight, .and⟩

/-- Two rules of a finite weight whose square is not finite, and one of weight 1. -/
def rules : List (Rule Float) := [ifLow "low" 1.7e308, ifLow "low" 1.7e308, ifLow "high" 1]

theorem accepted : ∀ r ∈ rules, r.fault? = none := by
  intro r hr
  simp only [rules, List.mem_cons, List.not_mem_nil, or_false] at hr
  rcases hr with rfl | rfl | rfl
  · exact if_neg (by decide +kernel)
  · exact if_neg (by decide +kernel)
  · exact if_neg (by decide +kernel)

/-- These rules, seen at the two ends of the domain. -/
def engine : Engine Float :=
  ⟨.regular .minimum .maximum .larsen .probabilisticSum .largestOfMaximum 1 one_pos,
    [⟨.own 0, level⟩], rules, by simp, accepted⟩

/-- Whether a computation fails because there is no point to choose from.  This can be decided,
where equality of results cannot. -/
def isEmptyProfile {β : Type} : Except (Fault Float) β → Bool
  | .error .emptyProfile => true
  | _ => false

theorem eq_of_isEmptyProfile {β : Type} {x : Except (Fault Float) β} (h : isEmptyProfile x) :
    x = .error .emptyProfile := by
  unfold isEmptyProfile at h
  split at h
  · rfl
  · cases h

/-- Whether a computation has a result that passes a test. -/
def passes {β : Type} (test : β → Bool) : Except (Fault Float) β → Bool
  | .ok b => test b
  | .error _ => false

theorem exists_of_passes {β : Type} {test : β → Bool} {x : Except (Fault Float) β}
    (h : passes test x) : ∃ b, x = .ok b ∧ test b := by
  unfold passes at h
  split at h
  · exact ⟨_, rfl, h⟩
  · cases h

/-- **In doubles an inference can fail although no name is missing.**  The degree at 0 comes to
`infinity - infinity`, which equals nothing, so no point has the greatest degree. -/
theorem infer_overflow :
    engine.find? "level" = some level ∧
      (∀ r ∈ engine.rules, (level.set? r.conclusion.setName).isSome) ∧
      (∀ r ∈ engine.rules, ¬ Scalar.isInfinite r.weight ∧ ¬ Scalar.undefined r.weight) ∧
      engine.infer [("level", 0)] "level" = .error .emptyProfile ∧
      (Fault.emptyProfile : Fault Float).category ≠ .absentKey := by
  refine ⟨rfl, ?_, ?_, eq_of_isEmptyProfile (by decide +kernel), by decide⟩
  · decide
  · decide +kernel

end Doubles
end Graded
