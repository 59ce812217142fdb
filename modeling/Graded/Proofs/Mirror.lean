/-
# Control systems mirror rules

A control system writes the rules for an output out as trees.  Folded with the norm, the conorm and
the complement of the engine (`Clause.fold`), and multiplied by the weight that is attached, the
tree of a rule has the strength of the rule (`controlSystem_mirrors`).

The two are not computed alike.  A rule joins the degrees of its conditions to a neutral element,
one after the other, and a tree has no neutral element to begin with.  That it needs none is the law
of the neutral element, which all catalogued norms and conorms obey (`Connective.value_neutral`).
The rest is an induction over the conditions (`fold_foldl`), the same for both connectives.

A rule is written out if all that it names is there (`Whole`).  That is not enough for a control
system.  Rules may share an id, labels may not, except that the last rule may repeat one: the system
exists exactly if the ids of all rules but the last differ (`not_controlSystem_of_whole`).
-/
import Graded.Proofs.Absence
import Graded.ControlSystem

namespace Graded

/-! ## 1. Folding a tree -/

namespace Clause

variable {α : Type} [Scalar α]

/-- The degree of a tree: readings at its terms, joined by a norm and a conorm. -/
def fold (norm : Chosen (TNorm α) α) (conorm : Chosen TConorm α) (readings : Readings α) :
    Clause → Except (Fault α) α
  | term v s => .ok (Grading.degreeOf ((readings.lookup v).getD []) s)
  | not c => (fold norm conorm readings c).map complement
  | and a b => do
    (← norm.both (← fold norm conorm readings a) (← fold norm conorm readings b)).number
  | or a b => do
    (← conorm.either (← fold norm conorm readings a) (← fold norm conorm readings b)).number

/-- The tree of one condition has its degree. -/
theorem fold_ofCondition (norm : Chosen (TNorm α) α) (conorm : Chosen TConorm α)
    (readings : Readings α) (c : Condition) :
    (ofCondition c).fold norm conorm readings = .ok (c.degree readings) := by
  unfold ofCondition Condition.degree
  cases c.negated with
  | true => rfl
  | false => rfl

end Clause

/-! ## 2. Joining -/

namespace Connective

variable {t : TNorm ℝ} {s : TConorm}

/-- What a connective makes of two degrees. -/
noncomputable def value (t : TNorm ℝ) (s : TConorm) : Connective → ℝ → ℝ → ℝ
  | and => t.value
  | _ => s.value

/-- The degree that a connective leaves alone. -/
noncomputable def neutral : Connective → ℝ
  | and => 1
  | _ => 0

theorem value_mem (ht : t.Proper) (k : Connective) {x y : ℝ} (hx : x ∈ unitInterval)
    (hy : y ∈ unitInterval) : k.value t s x y ∈ unitInterval := by
  cases k with
  | and => exact TNorm.value_mem ht hx hy
  | or => exact TConorm.value_mem s hx hy
  | other word => exact TConorm.value_mem s hx hy

theorem value_neutral (ht : t.Proper) (k : Connective) {x : ℝ} (hx : x ∈ unitInterval) :
    k.value t s k.neutral x = x := by
  cases k with
  | and => exact (t.value_comm 1 x).trans (TNorm.value_one ht hx)
  | or => exact (s.value_comm 0 x).trans (TConorm.value_zero s hx)
  | other word => exact (s.value_comm 0 x).trans (TConorm.value_zero s hx)

end Connective

/-- A rule joins the degrees of its conditions to the neutral element. -/
theorem Rule.joined_eq_foldl {t : TNorm ℝ} {s : TConorm} (r : Rule ℝ) (readings : Readings ℝ) :
    r.joined t s readings =
      (r.degrees readings).foldl (r.connective.value t s) r.connective.neutral := by
  unfold joined
  cases r.connective <;> rfl

namespace Clause

variable {t : TNorm ℝ} {s : TConorm} {readings : Readings ℝ}

/-- Two trees that are joined have the degrees joined. -/
theorem fold_join (ht : t.Proper) (k : Connective) {a b : Clause} {x y : ℝ}
    (ha : a.fold (.regular t) (.regular s) readings = .ok x)
    (hb : b.fold (.regular t) (.regular s) readings = .ok y) (hx : x ∈ unitInterval)
    (hy : y ∈ unitInterval) :
    (join k a b).fold (.regular t) (.regular s) readings = .ok (k.value t s x y) := by
  have hboth : (Chosen.regular t).both x y = .ok (.one (t.value x y)) := by
    rw [Chosen.both, TNorm.apply_eq ht hx hy]
    rfl
  cases k with
  | and => simp only [join, fold, ha, hb, bind, Except.bind, hboth, Operand.number,
      Connective.value]
  | or => simp only [join, fold, ha, hb, bind, Except.bind, Chosen.either, Operand.number,
      Connective.value]
  | other word => simp only [join, fold, ha, hb, bind, Except.bind, Chosen.either, Operand.number,
      Connective.value]

/-- **Conditions that are joined to a tree** are joined to its degree, one after the other. -/
theorem fold_foldl (ht : t.Proper) (hr : InUnit readings) (k : Connective)
    {conditions : List Condition} {tree : Clause} {x : ℝ}
    (htree : tree.fold (.regular t) (.regular s) readings = .ok x) (hx : x ∈ unitInterval) :
    (conditions.foldl (fun tree c => join k tree (ofCondition c)) tree).fold
        (.regular t) (.regular s) readings =
      .ok ((conditions.map (·.degree readings)).foldl (k.value t s) x) := by
  induction conditions generalizing tree x with
  | nil => exact htree
  | cons c conditions ih =>
    have hc := c.degree_mem hr
    exact ih (fold_join ht k htree (fold_ofCondition _ _ _ c) hx hc) (k.value_mem ht hx hc)

/-- **The tree of the conditions of a rule** has the degree to which they hold together.  The first
condition stands for itself joined to the neutral element. -/
theorem fold_ofConditions (ht : t.Proper) (hr : InUnit readings) {r : Rule ℝ} {tree : Clause}
    (htree : ofConditions? r.connective r.conditions = some tree) :
    tree.fold (.regular t) (.regular s) readings = .ok (r.joined t s readings) := by
  rw [Rule.joined_eq_foldl, Rule.degrees]
  cases hconditions : r.conditions with
  | nil =>
    rw [hconditions] at htree
    cases htree
  | cons c conditions =>
    rw [hconditions] at htree
    cases htree
    have hc := c.degree_mem hr
    rw [List.map_cons, List.foldl_cons, r.connective.value_neutral ht hc]
    exact fold_foldl ht hr r.connective (fold_ofCondition _ _ _ c) hc

end Clause

/-! ## 3. Rules that can be written out -/

/-- In exact arithmetic every variable can be sampled. -/
theorem Variable.sampled?_eq (v : Variable ℝ) (steps : ℕ) :
    v.sampled? steps = .ok (v.sampled steps) := by
  rw [sampled?, if_neg (by simp [v.tooWide_eq_false])]

namespace Engine

variable {e : Engine ℝ} {v : Variable ℝ} {output : String} {r : Rule ℝ}

/-- All that a rule for an output names is there, and it has conditions. -/
structure Whole (e : Engine ℝ) (v : Variable ℝ) (r : Rule ℝ) : Prop where
  concludes : (v.set? r.conclusion.setName).isSome
  nonempty : r.conditions ≠ []
  terms : ∀ c ∈ r.conditions, ∃ w, e.find? c.variableName = some w ∧ (w.set? c.setName).isSome

/-- The rule as it is written out. -/
noncomputable def written (r : Rule ℝ) (tree : Clause) : ControlRule ℝ :=
  ⟨r.id, tree, r.conclusion, if r.weight = 1 then none else some r.weight⟩

/-- The weight that is attached is the weight of the rule, and 1 if there is none. -/
theorem weight_written (r : Rule ℝ) (tree : Clause) : (written r tree).weight = r.weight := by
  unfold written ControlRule.weight
  split_ifs with h
  · exact h.symm
  · rfl

/-- The rule as it is written out, with the tree of its conditions. -/
def Mirrors (r : Rule ℝ) (q : ControlRule ℝ) : Prop :=
  ∃ tree, Clause.ofConditions? r.connective r.conditions = some tree ∧ q = written r tree

/-- Conditions whose variables and sets are there are accepted. -/
theorem forM_demandCondition {conditions : List Condition}
    (h : ∀ c ∈ conditions, ∃ w, e.find? c.variableName = some w ∧ (w.set? c.setName).isSome) :
    conditions.forM e.demandCondition = .ok () := by
  induction conditions with
  | nil => rfl
  | cons c conditions ih =>
    obtain ⟨w, hw, hset⟩ := h c List.mem_cons_self
    have hdemand : e.demandCondition c = .ok () := by
      simp only [demandCondition, antecedent, hw, bind, Except.bind, Variable.demand, hset, if_true]
    rw [List.forM, hdemand]
    exact ih fun d hd => h d (List.mem_cons_of_mem _ hd)

/-- **A rule is written out** if all that it names is there. -/
theorem controlRule_of_whole (h : e.Whole v r) :
    ∃ q, e.controlRule v r = .ok q ∧ Mirrors r q := by
  have htree : ∃ tree, Clause.ofConditions? r.connective r.conditions = some tree := by
    obtain ⟨c, conditions, hconditions⟩ := List.exists_cons_of_ne_nil h.nonempty
    rw [hconditions]
    exact ⟨_, rfl⟩
  obtain ⟨tree, htree⟩ := htree
  refine ⟨written r tree, ?_, tree, htree, rfl⟩
  simp only [controlRule, forM_demandCondition h.terms, htree, Variable.demand, h.concludes,
    bind, Except.bind, if_true, pure, Except.pure, written, beq_iff_eq]

/-- A tree with its weight has the strength of the rule. -/
theorem Mirrors.strength_eq {t : TNorm ℝ} {s : TConorm} {i : Implication} {a : Accumulation}
    {z : Defuzzifier} {q : ControlRule ℝ} {readings : Readings ℝ} (h : Mirrors r q)
    (hu : e.settings.Uses t s i a z) (hr : InUnit readings) :
    ∃ mu, q.antecedent.fold e.settings.norm e.settings.conorm readings = .ok mu ∧
      e.strength r readings = .ok (mu * q.weight) := by
  obtain ⟨tree, htree, rfl⟩ := h
  refine ⟨r.joined t s readings, ?_, ?_⟩
  · rw [hu.norm, hu.conorm]
    exact Clause.fold_ofConditions hu.proper hr htree
  · rw [Engine.strength_eq hu hr, weight_written]
    rfl

/-- The labels are the ids of the rules, in their order. -/
theorem labels_of_mirrors {rules : List (Rule ℝ)} {qs : List (ControlRule ℝ)}
    (h : List.Forall₂ Mirrors rules qs) : qs.map (·.label) = rules.map (·.id) := by
  induction h with
  | nil => rfl
  | cons hmirrors _ ih =>
    obtain ⟨tree, -, rfl⟩ := hmirrors
    rw [List.map_cons, List.map_cons, ih]
    rfl

/-! ## 4. Control systems -/

/-- No label occurs again exactly if all of them differ. -/
theorem repeatedLabel?_eq_none_iff {labels : List String} :
    repeatedLabel? labels = none ↔ labels.Nodup := by
  induction labels with
  | nil => simp [repeatedLabel?]
  | cons l labels ih =>
    unfold repeatedLabel?
    by_cases h : l ∈ labels
    · simp [h]
    · simp [h, ih]

/-- The names of the variables in the conditions of rules are names in conditions of rules. -/
theorem exists_of_mem_conditionNames {rules : List (Rule ℝ)} {name : String}
    (h : name ∈ conditionNames rules) :
    ∃ r ∈ rules, ∃ c ∈ r.conditions, c.variableName = name := by
  simpa [conditionNames, List.mem_flatMap] using h

/-- The variables that the rules speak of are sampled, one by one. -/
theorem exists_antecedents (hw : ∀ r ∈ e.rulesFor output, e.Whole v r) :
    ∃ antecedents,
      (conditionNames (e.rulesFor output)).mapM e.sampledAntecedent = .ok antecedents ∧
      List.Forall₂ (fun name sampled => ∃ w, e.find? name = some w ∧
        sampled = w.sampled e.settings.resolution) (conditionNames (e.rulesFor output))
        antecedents := by
  refine exists_mapM fun name hname => ?_
  obtain ⟨r, hr, c, hc, rfl⟩ := exists_of_mem_conditionNames hname
  obtain ⟨w, hfind, -⟩ := (hw r hr).terms c hc
  refine ⟨w.sampled e.settings.resolution, ?_, w, hfind, rfl⟩
  simp only [sampledAntecedent, antecedent, hfind, bind, Except.bind, Variable.sampled?_eq]

/-- **The control system of rules that can be written out**, unless a label is taken. -/
theorem controlSystem_of_whole (hv : e.find? output = some v)
    (hw : ∀ r ∈ e.rulesFor output, e.Whole v r) :
    ∃ c : ControlSystem ℝ, c.norm = e.settings.norm ∧ c.conorm = e.settings.conorm ∧
      List.Forall₂ Mirrors (e.rulesFor output) c.rules ∧
      e.controlSystem output =
        match repeatedLabel? ((e.rulesFor output).dropLast.map (·.id)) with
        | some label => .error (.labelTaken label)
        | none => .ok c := by
  have ho : e.output output = .ok v := by simp [Engine.output, hv]
  obtain ⟨antecedents, hantecedents, -⟩ := exists_antecedents hw
  obtain ⟨rules, hrules, hall⟩ := exists_mapM (f := e.controlRule v) (R := Mirrors)
    fun r hr => controlRule_of_whole (hw r hr)
  have hlabels : rules.dropLast.map (·.label) = (e.rulesFor output).dropLast.map (·.id) := by
    rw [List.map_dropLast, List.map_dropLast, labels_of_mirrors hall]
  let consequents := if (e.rulesFor output).isEmpty then [] else [v.sampled e.settings.resolution]
  refine ⟨⟨antecedents, consequents, e.settings.defuzzifier.named Defuzzifier.name
    Defuzzifier.centroid.name, e.settings.norm, e.settings.conorm, rules⟩, rfl, rfl, hall, ?_⟩
  simp only [controlSystem, ho, bind, Except.bind, hantecedents, Variable.sampled?_eq, hrules,
    hlabels]
  cases repeatedLabel? ((e.rulesFor output).dropLast.map (·.id)) with
  | none => rfl
  | some label => rfl

/-- **A control system mirrors the rules of the engine.**  If all that the rules for an output name
is there, the output has a control system exactly if the ids of all its rules but the last differ.
It has one rule for each of them, in their order and under their ids, whose tree, folded with the
norm and the conorm of the engine, comes with the weight that is attached to the strength of the
rule. -/
theorem controlSystem_mirrors (hc : e.settings.Catalogued) (hv : e.find? output = some v)
    (hw : ∀ r ∈ e.rulesFor output, e.Whole v r) :
    ((∃ c, e.controlSystem output = .ok c) ↔
      ((e.rulesFor output).dropLast.map (·.id)).Nodup) ∧
    ∀ c, e.controlSystem output = .ok c →
      c.norm = e.settings.norm ∧ c.conorm = e.settings.conorm ∧
      List.Forall₂ (fun r q => q.label = r.id ∧ q.consequent = r.conclusion ∧
          ∀ readings, InUnit readings →
            ∃ mu, q.antecedent.fold c.norm c.conorm readings = .ok mu ∧
              e.strength r readings = .ok (mu * q.weight))
        (e.rulesFor output) c.rules := by
  obtain ⟨t, s, i, a, z, hu⟩ := hc.uses
  obtain ⟨c, hnorm, hconorm, hall, hsystem⟩ := controlSystem_of_whole hv hw
  rw [← repeatedLabel?_eq_none_iff]
  cases hlabel : repeatedLabel? ((e.rulesFor output).dropLast.map (·.id)) with
  | some label =>
    rw [hlabel] at hsystem
    exact ⟨⟨fun ⟨c', hc'⟩ => by simp [hsystem] at hc', fun h => by cases h⟩,
      fun c' hc' => by simp [hsystem] at hc'⟩
  | none =>
    rw [hlabel] at hsystem
    refine ⟨⟨fun _ => rfl, fun _ => ⟨c, hsystem⟩⟩, fun c' hc' => ?_⟩
    cases hsystem.symm.trans hc'
    refine ⟨hnorm, hconorm, hall.imp fun r q hmirrors => ?_⟩
    have hstrength := fun readings (hr : InUnit readings) => hmirrors.strength_eq hu hr
    obtain ⟨tree, -, rfl⟩ := hmirrors
    exact ⟨rfl, rfl, fun readings hr => by rw [hnorm, hconorm]; exact hstrength readings hr⟩

end Engine

namespace Level

/-- If the level is low or is not high, it stays low to a half. -/
noncomputable def lowNotHigh : Rule ℝ :=
  ⟨"lowNotHigh", [⟨"level", "low", false⟩, ⟨"level", "high", true⟩], ⟨"level", "low"⟩, 0.5, .or⟩

/-- Rules that speak of the level only are whole if their sets are there. -/
theorem whole_of_conditions {o : Settings ℝ} {rules : List (Rule ℝ)}
    (accepted : ∀ r ∈ rules, r.fault? = none) {r : Rule ℝ}
    (hconclusion : (level.set? r.conclusion.setName).isSome) (hne : r.conditions ≠ [])
    (h : ∀ c ∈ r.conditions, c.variableName = "level" ∧ (level.set? c.setName).isSome) :
    (engine o rules accepted).Whole level r where
  concludes := hconclusion
  nonempty := hne
  terms c hc := ⟨level, (h c hc).1 ▸ find?_engine accepted, (h c hc).2⟩

theorem whole_keepsLow {o : Settings ℝ} {rules : List (Rule ℝ)}
    (accepted : ∀ r ∈ rules, r.fault? = none) (id : String) (weight : ℝ) :
    (engine o rules accepted).Whole level (keepsLow id weight) :=
  whole_of_conditions accepted (by simp [keepsLow, level, Variable.set?]) (by simp [keepsLow])
    (by simp [keepsLow, level, Variable.set?])

end Level

namespace Engine

/-- Two rules, one with a negation and a weight, and their trees. -/
theorem controlSystem_mirrors_level :
    ∃ (e : Engine ℝ) (c : ControlSystem ℝ), e.settings.Catalogued ∧
      e.rules = [Level.keepsLow "once" 1, Level.lowNotHigh] ∧
      (∀ r ∈ e.rulesFor "level", e.Whole Level.level r) ∧
      e.controlSystem "level" = .ok c ∧
      List.Forall₂ (fun r q => q.label = r.id ∧ q.consequent = r.conclusion ∧
          ∀ readings, InUnit readings →
            ∃ mu, q.antecedent.fold c.norm c.conorm readings = .ok mu ∧
              e.strength r readings = .ok (mu * q.weight))
        (e.rulesFor "level") c.rules := by
  have hc := Settings.catalogued_minimum .maximum .mamdani .maximum .centroid (n := 4) (by decide)
  set o := Settings.regular _ _ _ _ _ _ _
  have accepted : ∀ r ∈ [Level.keepsLow "once" 1, Level.lowNotHigh], r.fault? = none := by
    intro r hr
    rcases List.mem_pair.mp hr with rfl | rfl
    · exact Level.fault?_keepsLow "once" zero_le_one
    · exact Rule.fault?_eq_none_iff.mpr ⟨by norm_num [Level.lowNotHigh], .inr rfl⟩
  set e := Level.engine o _ accepted
  have hwhole : ∀ r ∈ e.rulesFor "level", e.Whole Level.level r := by
    intro r hr
    rcases List.mem_pair.mp (List.mem_of_mem_filter hr) with rfl | rfl
    · exact Level.whole_keepsLow accepted "once" 1
    · exact Level.whole_of_conditions accepted (by simp [Level.lowNotHigh, Level.level,
        Variable.set?]) (by simp [Level.lowNotHigh])
        (by simp [Level.lowNotHigh, Level.level, Variable.set?])
  obtain ⟨hiff, hmirrors⟩ :=
    controlSystem_mirrors (e := e) hc (Level.find?_engine accepted) hwhole
  have hids : ((e.rulesFor "level").dropLast.map (·.id)).Nodup := List.nodup_singleton _
  obtain ⟨c, hsystem⟩ := hiff.mpr hids
  exact ⟨e, c, hc, rfl, hwhole, hsystem, (hmirrors c hsystem).2.2⟩

/-- **Rules that can all be written out need not make a control system.**  An engine takes three
rules of one id, and a control system does not. -/
theorem not_controlSystem_of_whole :
    ∃ e : Engine ℝ, e.settings.Catalogued ∧ e.find? "level" = some Level.level ∧
      (∀ r ∈ e.rulesFor "level", e.Whole Level.level r) ∧
      e.controlSystem "level" = .error (.labelTaken "same") := by
  have hc := Settings.catalogued_minimum .maximum .mamdani .maximum .centroid (n := 4) (by decide)
  set o := Settings.regular _ _ _ _ _ _ _
  set rules := List.replicate 3 (Level.keepsLow "same" 1)
  have accepted : ∀ r ∈ rules, r.fault? = none := by
    intro r hr
    rw [List.eq_of_mem_replicate hr]
    exact Level.fault?_keepsLow "same" zero_le_one
  set e := Level.engine o rules accepted
  have hwhole : ∀ r ∈ e.rulesFor "level", e.Whole Level.level r := by
    intro r hr
    rw [List.eq_of_mem_replicate (List.mem_of_mem_filter hr)]
    exact Level.whole_keepsLow accepted "same" 1
  have hfind : e.find? "level" = some Level.level := Level.find?_engine accepted
  obtain ⟨c, -, -, -, hsystem⟩ := controlSystem_of_whole hfind hwhole
  refine ⟨e, hc, hfind, hwhole, hsystem.trans ?_⟩
  have hids : (e.rulesFor "level").dropLast.map (·.id) = ["same", "same"] := rfl
  rw [hids]
  rfl

end Engine
end Graded
