/-
# What an inference does not depend on

An inference to an output reads the settings, the variable of that name, the rules that conclude on
it, and of the inputs those that the conditions of these rules speak of (`Mentions`).  Two engines
that agree on this much come to the same answer, or to the same fault (`infer_of_agree`).  So rules
for other outputs, variables and inputs that no rule for the output speaks of, inputs under names
that are no variables, and the order of the inputs do not matter (`infer_noninterference`).

All this holds in any arithmetic, for what fails as well as for what succeeds.  There is one way
around it.  Every input of a variable is fuzzified, and a set beyond the arithmetic takes no input,
so that a fault comes of an input that no rule asks for (`Doubles.not_infer_noninterference`).  Both
inferences have to meet such a set, then, or neither.  In exact arithmetic there are none.
-/
import Graded.Proofs.Engine
import Graded.Proofs.Failure

namespace Graded

variable {α : Type} [Scalar α]

/-! ## 1. Readings that agree -/

/-- A condition reads one variable. -/
theorem Condition.degree_congr {c : Condition} {readings readings' : Readings α}
    (h : readings'.lookup c.variableName = readings.lookup c.variableName) :
    c.degree readings' = c.degree readings := by
  rw [degree, degree, h]

/-- A rule reads the variables of its conditions. -/
theorem Rule.strength_congr {r : Rule α} {norm : Chosen (TNorm α) α} {conorm : Chosen TConorm α}
    {readings readings' : Readings α}
    (h : ∀ c ∈ r.conditions, readings'.lookup c.variableName = readings.lookup c.variableName) :
    r.strength norm conorm readings' = r.strength norm conorm readings := by
  have hdegrees : r.degrees readings' = r.degrees readings :=
    List.map_congr_left fun c hc => Condition.degree_congr (h c hc)
  rw [strength, strength, hdegrees]

namespace Engine

variable {e e' : Engine α} {inputs inputs' : Keyed α} {output : String}

/-- A condition of a rule for the output speaks of the name. -/
def Mentions (e : Engine α) (output name : String) : Prop :=
  ∃ r ∈ e.rulesFor output, ∃ c ∈ r.conditions, c.variableName = name

/-! ## 2. Engines that agree -/

/-- Two engines with their inputs agree on everything that an inference to the output reads. -/
structure Agree (output : String) (e : Engine α) (inputs : Keyed α) (e' : Engine α)
    (inputs' : Keyed α) : Prop where
  settings : e'.settings = e.settings
  find : e'.find? output = e.find? output
  rules : e'.rulesFor output = e.rulesFor output
  readings : ∀ name, e.Mentions output name →
    (e'.fuzzify inputs').lookup name = (e.fuzzify inputs).lookup name

/-- The same rules fire, and as strongly. -/
theorem Agree.firings (h : Agree output e inputs e' inputs') :
    e'.firings (e'.fuzzify inputs') output = e.firings (e.fuzzify inputs) output := by
  rw [Engine.firings, Engine.firings, h.rules]
  refine mapM_congr fun r hr => ?_
  have hstrength : e'.strength r (e'.fuzzify inputs') = e.strength r (e.fuzzify inputs) := by
    rw [strength, strength, h.settings]
    exact Rule.strength_congr fun c hc => h.readings c.variableName ⟨r, hr, c, hc, rfl⟩
  rw [hstrength]

/-- What becomes of firings is a matter of the settings. -/
theorem aggregate_congr (h : e'.settings = e.settings) (fs : List (Firing α)) (v : Variable α) :
    e'.aggregate fs v = e.aggregate fs v := by
  have hstep : ∀ xs, e'.accumulate v xs = e.accumulate v xs := fun xs => by
    funext mu f
    rw [accumulate, accumulate, h]
  simp only [aggregate, h, hstep]

theorem settle_congr (h : e'.settings = e.settings) (v : Variable α) (output : String)
    (p : Profile α) : e'.settle v output p = e.settle v output p := by
  rw [settle, settle, h]

/-- **Engines that agree infer the same**, if their inputs can be fuzzified alike. -/
theorem infer_of_agree (h : Agree output e inputs e' inputs')
    (hw : e'.tooWide inputs' = e.tooWide inputs) :
    e'.infer inputs' output = e.infer inputs output := by
  have houtput : e'.output output = e.output output := by
    rw [Engine.output, Engine.output, h.find]
  simp only [infer, houtput, fuzzify?, hw, aggregate_congr h.settings, settle_congr h.settings]
  cases e.output output with
  | error fault => rfl
  | ok v =>
    cases e.tooWide inputs with
    | true => rfl
    | false => simp [bind, Except.bind, h.firings]

/-! ## 3. What does not matter -/

/-- Inputs agree if they give the same to every variable that a rule for the output speaks of. -/
theorem agree_of_inputs
    (h : ∀ name, e.Mentions output name → (e.find? name).isSome →
      inputs'.lookup name = inputs.lookup name) :
    Agree output e inputs e inputs' where
  settings := rfl
  find := rfl
  rules := rfl
  readings name hname := by
    rw [lookup_fuzzify, lookup_fuzzify]
    cases hv : e.find? name with
    | none => rfl
    | some v => rw [h name hname (by rw [hv, Option.isSome_some])]

/-- Engines that differ in the rules for other outputs agree. -/
theorem agree_of_rules (hs : e'.settings = e.settings) (hd : e'.declared = e.declared)
    (hr : e'.rulesFor output = e.rulesFor output) (inputs : Keyed α) :
    Agree output e inputs e' inputs where
  settings := hs
  find := by rw [find?, find?, declaration?, declaration?, hd]
  rules := hr
  readings name _ := by
    rw [lookup_fuzzify, lookup_fuzzify, find?, find?, declaration?, declaration?, hd]

/-- Whether inputs can be fuzzified is a matter of the variables. -/
theorem tooWide_congr (hd : e'.declared = e.declared) (inputs : Keyed α) :
    e'.tooWide inputs = e.tooWide inputs := by
  simp only [tooWide, find?, declaration?, hd]

/-- A variable of another name does not change what is found. -/
theorem find?_of_declared_append {added : List (Declared α)} {name : String}
    (hd : e'.declared = e.declared ++ added) (h : ∀ d ∈ added, d.name ≠ name) :
    e'.find? name = e.find? name := by
  have hnone : added.find? (fun d => d.name == name) = none :=
    List.find?_eq_none.mpr fun d hmem => by simpa using h d hmem
  rw [find?, find?, declaration?, declaration?, hd, List.find?_append, hnone, Option.or_none]

/-- Engines that differ in variables that no rule for the output speaks of agree. -/
theorem agree_of_declared {added : List (Declared α)} (hs : e'.settings = e.settings)
    (hd : e'.declared = e.declared ++ added) (hr : e'.rules = e.rules)
    (h : ∀ d ∈ added, d.name ≠ output ∧ ¬ e.Mentions output d.name) (inputs : Keyed α) :
    Agree output e inputs e' inputs where
  settings := hs
  find := find?_of_declared_append hd fun d hmem => (h d hmem).1
  rules := by rw [rulesFor, rulesFor, hr]
  readings name hname := by
    have hfind : e'.find? name = e.find? name :=
      find?_of_declared_append hd fun d hmem heq => (h d hmem).2 (heq ▸ hname)
    rw [lookup_fuzzify, lookup_fuzzify, hfind]

/-- Rules for other outputs are not among the rules for the output. -/
theorem rulesFor_addRules {rs : List (Rule α)}
    (h : ∀ r ∈ rs, r.conclusion.variableName ≠ output) :
    (e.addRules rs).1.rulesFor output = e.rulesFor output := by
  obtain ⟨added, hinitial, hrules, -, -⟩ := addRules_extends rs e
  have hnone : (added.filter fun r => r.conclusion.variableName == output) = [] :=
    List.filter_eq_nil_iff.mpr fun r hmem => by simpa using h r (hinitial.subset hmem)
  rw [rulesFor, hrules, List.filter_append, hnone, List.append_nil, rulesFor]

/-- **An inference to an output does not depend on** rules for other outputs, wherever they stand,
on variables that are neither the output nor spoken of by a rule for it, on inputs of such variables
or under names that are no variables, nor on the order of the inputs.  Where variables or inputs
change, some input has to meet a set beyond the arithmetic both before and after, or neither. -/
theorem infer_noninterference (e : Engine α) (inputs : Keyed α) (output : String) :
    (∀ rs, (∀ r ∈ rs, r.conclusion.variableName ≠ output) →
      (e.addRules rs).1.infer inputs output = e.infer inputs output) ∧
    (∀ e' : Engine α, e'.settings = e.settings → e'.declared = e.declared →
      e'.rulesFor output = e.rulesFor output → e'.infer inputs output = e.infer inputs output) ∧
    (∀ ds, (∀ d ∈ ds, d.name ≠ output ∧ ¬ e.Mentions output d.name) →
      (e.declareAll ds).1.tooWide inputs = e.tooWide inputs →
      (e.declareAll ds).1.infer inputs output = e.infer inputs output) ∧
    (∀ inputs', (∀ name, e.Mentions output name → (e.find? name).isSome →
        inputs'.lookup name = inputs.lookup name) →
      e.tooWide inputs' = e.tooWide inputs → e.infer inputs' output = e.infer inputs output) ∧
    (∀ inputs', inputs.keys.Nodup → inputs.Perm inputs' →
      e.infer inputs' output = e.infer inputs output) := by
  have hrules : ∀ e' : Engine α, e'.settings = e.settings → e'.declared = e.declared →
      e'.rulesFor output = e.rulesFor output → e'.infer inputs output = e.infer inputs output :=
    fun e' hs hd hr => infer_of_agree (agree_of_rules hs hd hr inputs) (tooWide_congr hd inputs)
  refine ⟨fun rs h => ?_, hrules, fun ds h hw => ?_, fun inputs' h hw => ?_,
    fun inputs' hkeys hp => ?_⟩
  · obtain ⟨-, -, -, hs, hd⟩ := addRules_extends rs e
    exact hrules _ hs hd (rulesFor_addRules h)
  · obtain ⟨added, hsub, hd, hs, hr⟩ := declareAll_extends ds e
    exact infer_of_agree
      (agree_of_declared hs hd hr (fun d hmem => h d (hsub.subset hmem)) inputs) hw
  · exact infer_of_agree (agree_of_inputs h) hw
  · have hlookup : ∀ name, inputs'.lookup name = inputs.lookup name :=
      fun name => (Keyed.lookup_perm hkeys hp name).symm
    refine infer_of_agree (agree_of_inputs fun name _ _ => hlookup name) ?_
    rw [tooWide, tooWide]
    exact hp.symm.any_eq

end Engine

namespace Level

/-- If the room is low the mood is high, which says nothing of the level. -/
noncomputable def cheers : Rule ℝ :=
  ⟨"cheers", [⟨"room", "low", false⟩], ⟨"mood", "high"⟩, 1, .and⟩

/-- A variable that no rule for the level speaks of, with the same sets. -/
noncomputable def room : Variable ℝ := { level with name := "room" }

end Level

namespace Engine

/-- What the level comes to is not affected by the mood or by the room. -/
theorem infer_noninterference_level :
    ∃ e e' : Engine ℝ, e.rules = [Level.keepsLow "once" 1] ∧
      e'.rules = [Level.cheers, Level.keepsLow "once" 1] ∧
      (∃ n, e.infer [("level", 0)] "level" = .ok n) ∧
      e'.infer [("level", 0)] "level" = e.infer [("level", 0)] "level" ∧
      (e.addRules [Level.cheers]).1.infer [("level", 0)] "level" =
        e.infer [("level", 0)] "level" ∧
      (e.declareAll [⟨.own 1, Level.room⟩]).1.infer [("level", 0)] "level" =
        e.infer [("level", 0)] "level" ∧
      e.infer [("level", 0), ("room", 1)] "level" = e.infer [("level", 0)] "level" ∧
      e.infer [("room", 1), ("level", 0)] "level" =
        e.infer [("level", 0), ("room", 1)] "level" := by
  set o : Settings ℝ := .regular .minimum .maximum .mamdani .maximum .centroid 4 (by decide)
  have hu : o.Uses .minimum .maximum .mamdani .maximum .centroid :=
    ⟨trivial, rfl, rfl, rfl, rfl, rfl⟩
  have accepted : ∀ r ∈ [Level.keepsLow "once" 1], r.fault? = none :=
    Rule.accepted_singleton zero_le_one (.inl rfl)
  have accepted' : ∀ r ∈ [Level.cheers, Level.keepsLow "once" 1], r.fault? = none :=
    List.forall_mem_cons.mpr ⟨Rule.fault?_eq_none_iff.mpr ⟨zero_le_one, .inl rfl⟩, accepted⟩
  set e := Level.engine o _ accepted
  set e' := Level.engine o _ accepted'
  -- the only rule for the level speaks of the level only
  have hmentions : ∀ name, e.Mentions "level" name → name = "level" := by
    rintro name ⟨r, hr, c, hc, rfl⟩
    rw [List.mem_singleton.mp (List.mem_of_mem_filter hr)] at hc
    rw [List.mem_singleton.mp hc]
  obtain ⟨hrules, hany, hdeclared, hinputs, -⟩ := infer_noninterference e [("level", 0)] "level"
  obtain ⟨-, -, -, -, hperm⟩ :=
    infer_noninterference e [("level", (0 : ℝ)), ("room", 1)] "level"
  have hsets := Level.isSome_set? (e := e) (by simp [e, Level.engine, Level.keepsLow]) "level"
  obtain ⟨_, -, -, hn⟩ := infer_eq (e := e) hu (Level.find?_engine accepted) [("level", 0)]
    (concludes_of_sets hsets)
  refine ⟨e, e', rfl, rfl, ⟨_, hn⟩, hany e' rfl rfl rfl, hrules _ ?_, hdeclared _ ?_ ?_,
    hinputs _ ?_ ?_, hperm _ ?_ ?_⟩
  · simp [Level.cheers]
  · simp only [List.forall_mem_singleton]
    exact ⟨by decide, fun h => absurd (hmentions _ h) (by decide)⟩
  · rw [tooWide_eq_false, tooWide_eq_false]
  · intro name hname _
    rw [hmentions name hname]
    rfl
  · rw [tooWide_eq_false, tooWide_eq_false]
  · simp [Keyed.keys]
  · exact List.Perm.swap _ _ _

end Engine

/-! ## 4. Doubles -/

namespace Doubles

/-- A bell whose width is finite and whose square is not. -/
def noise : Variable Float :=
  ⟨"noise", 0, 1, [⟨"any", .gaussian 0 1e200⟩], by simp, by simp, Scalar.zero_lt_one⟩

/-- An engine with such a variable, which no rule speaks of. -/
def noisy : Engine Float :=
  ⟨.regular .minimum .maximum .mamdani .maximum .centroid 4 (by decide),
    [⟨.own 0, level⟩, ⟨.own 1, noise⟩], [ifLow "low" 1], by decide,
    List.forall_mem_singleton.mpr (if_neg (by decide +kernel))⟩

/-- **In doubles an input that no rule asks for can matter.** -/
theorem not_infer_noninterference :
    ¬ noisy.Mentions "level" "noise" ∧
      (∃ n, noisy.infer [("level", 0)] "level" = .ok n) ∧
      noisy.infer [("level", 0), ("noise", 0)] "level" = .error .overflow := by
  have hquiet : passes (fun _ => true) (noisy.infer [("level", 0)] "level") := by decide +kernel
  obtain ⟨n, hn, -⟩ := exists_of_passes hquiet
  refine ⟨?_, ⟨n, hn⟩, ?_⟩
  · rintro ⟨r, hr, c, hc, hname⟩
    rw [List.mem_singleton.mp (List.mem_of_mem_filter hr)] at hc
    rw [List.mem_singleton.mp hc] at hname
    exact absurd hname (by decide)
  · have hlevel : noisy.output "level" = .ok level := rfl
    have hwide : noisy.tooWide [("level", 0), ("noise", 0)] = true := by decide +kernel
    simp only [Engine.infer, hlevel, Engine.fuzzify?, hwide, if_true, bind, Except.bind]

end Doubles
end Graded
