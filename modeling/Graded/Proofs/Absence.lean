/-
# Variables that are not given

A condition on a variable that is not among the inputs has no reading.  It reads 0, and since a
negated condition is the complement of what is read, a negated one reads 1
(`Condition.degree_of_absent`).  What this does to a rule follows from two laws of folds over
degrees:

* an absorbing degree decides the fold (`foldl_eq_absorbing`), which is 0 for a norm and 1 for a
  conorm;
* a neutral degree may be left out (`foldl_filter_neutral`), which is 1 for a norm and 0 for a
  conorm.

So of the two kinds of absent conditions one decides the rule and the other does not count, and the
connective says which (`Engine.strength_absent`).  Without any inputs a rule is decided by its
negations alone.
-/
import Graded.Proofs.Inference
import Graded.Proofs.Order

namespace Graded

/-! ## 1. Absorbing and neutral degrees -/

section Folds

variable {β : Type} {step : ℝ → ℝ → ℝ} {z : ℝ}

/-- **A fold that meets an absorbing degree comes to it.** -/
theorem foldl_eq_absorbing
    (mem : ∀ ⦃a b⦄, a ∈ unitInterval → b ∈ unitInterval → step a b ∈ unitInterval)
    (comm : ∀ a b, step a b = step b a) (absorbs : ∀ ⦃a⦄, a ∈ unitInterval → step a z = z)
    {xs : List ℝ} (h : ∀ x ∈ xs, x ∈ unitInterval) (hz : z ∈ xs) {a : ℝ} (ha : a ∈ unitInterval) :
    xs.foldl step a = z := by
  -- from then on the fold stays where it is
  have stays : ∀ ys : List ℝ, (∀ y ∈ ys, y ∈ unitInterval) → ys.foldl step z = z := by
    intro ys hys
    induction ys with
    | nil => rfl
    | cons y ys ih =>
      rw [List.foldl_cons, comm, absorbs (hys y List.mem_cons_self)]
      exact ih fun y' hy' => hys y' (List.mem_cons_of_mem _ hy')
  induction xs generalizing a with
  | nil => simp at hz
  | cons x xs ih =>
    have hxs : ∀ y ∈ xs, y ∈ unitInterval := fun y hy => h y (List.mem_cons_of_mem _ hy)
    rw [List.foldl_cons]
    rcases List.mem_cons.mp hz with rfl | hz
    · rw [absorbs ha]
      exact stays xs hxs
    · exact ih hxs hz (mem ha (h x List.mem_cons_self))

/-- **A fold does not see a neutral degree.** -/
theorem foldl_filter_neutral
    (mem : ∀ ⦃a b⦄, a ∈ unitInterval → b ∈ unitInterval → step a b ∈ unitInterval)
    (neutral : ∀ ⦃a⦄, a ∈ unitInterval → step a z = a) {f : β → ℝ} {keep : β → Bool}
    {xs : List β} (h : ∀ x ∈ xs, f x ∈ unitInterval) (hz : ∀ x ∈ xs, keep x = false → f x = z)
    {a : ℝ} (ha : a ∈ unitInterval) :
    ((xs.filter keep).map f).foldl step a = (xs.map f).foldl step a := by
  induction xs generalizing a with
  | nil => rfl
  | cons x xs ih =>
    have hx := h x List.mem_cons_self
    have hxs : ∀ y ∈ xs, f y ∈ unitInterval := fun y hy => h y (List.mem_cons_of_mem _ hy)
    have hzs : ∀ y ∈ xs, keep y = false → f y = z := fun y hy => hz y (List.mem_cons_of_mem _ hy)
    cases hk : keep x with
    | true =>
      rw [List.filter_cons_of_pos hk, List.map_cons, List.map_cons, List.foldl_cons,
        List.foldl_cons]
      exact ih hxs hzs (mem ha hx)
    | false =>
      rw [List.filter_cons_of_neg (by simp [hk]), List.map_cons, List.foldl_cons,
        hz x List.mem_cons_self hk, neutral ha]
      exact ih hxs hzs ha

end Folds

/-! ## 2. Conditions that decide a rule, and conditions that do not count -/

namespace Rule

variable {t : TNorm ℝ} {s : TConorm} {r : Rule ℝ} {readings : Readings ℝ}

/-- The rule without some of its conditions. -/
def without (drop : Condition → Bool) (r : Rule ℝ) : Rule ℝ :=
  { r with conditions := r.conditions.filter fun c => !drop c }

/-- A rule joined by "and" does not hold at all if one of its conditions does not. -/
theorem joined_eq_zero (ht : t.Proper) (h : InUnit readings) (ha : r.connective = .and)
    (hc : ∃ c ∈ r.conditions, c.degree readings = 0) : r.joined t s readings = 0 := by
  obtain ⟨c, hmem, h0⟩ := hc
  rw [joined_of_and ha]
  exact foldl_eq_absorbing (fun _ _ => TNorm.value_mem ht) (TNorm.value_comm t)
    (fun _ => TNorm.value_zero ht) (degrees_mem h r) (h0 ▸ List.mem_map_of_mem hmem)
    unitInterval.one_mem

/-- A rule joined by "or" holds altogether if one of its conditions does. -/
theorem joined_eq_one (h : InUnit readings) (ha : r.connective ≠ .and)
    (hc : ∃ c ∈ r.conditions, c.degree readings = 1) : r.joined t s readings = 1 := by
  obtain ⟨c, hmem, h1⟩ := hc
  rw [joined_of_ne_and ha]
  exact foldl_eq_absorbing (fun _ _ => TConorm.value_mem s) (TConorm.value_comm s)
    (fun _ => TConorm.value_one s) (degrees_mem h r) (h1 ▸ List.mem_map_of_mem hmem)
    unitInterval.zero_mem

/-- Under "and" the conditions that hold altogether do not count. -/
theorem joined_without_of_and (drop : Condition → Bool) (ht : t.Proper) (h : InUnit readings)
    (ha : r.connective = .and) (hd : ∀ c ∈ r.conditions, drop c → c.degree readings = 1) :
    (r.without drop).joined t s readings = r.joined t s readings := by
  rw [joined_of_and ha, joined_of_and (r := r.without drop) ha]
  exact foldl_filter_neutral (fun _ _ => TNorm.value_mem ht) (fun _ => TNorm.value_one ht)
    (fun c _ => c.degree_mem h) (fun c hc hk => hd c hc (by simpa using hk)) unitInterval.one_mem

/-- Under "or" the conditions that do not hold at all do not count. -/
theorem joined_without_of_ne_and (drop : Condition → Bool) (h : InUnit readings)
    (ha : r.connective ≠ .and) (hd : ∀ c ∈ r.conditions, drop c → c.degree readings = 0) :
    (r.without drop).joined t s readings = r.joined t s readings := by
  rw [joined_of_ne_and ha, joined_of_ne_and (r := r.without drop) ha]
  exact foldl_filter_neutral (fun _ _ => TConorm.value_mem s) (fun _ => TConorm.value_zero s)
    (fun c _ => c.degree_mem h) (fun c hc hk => hd c hc (by simpa using hk)) unitInterval.zero_mem

end Rule

/-! ## 3. Absent variables -/

namespace Condition

variable {e : Engine ℝ} {inputs : Keyed ℝ} {c : Condition}

/-- The variable of the condition is not among the inputs. -/
def absent (inputs : Keyed ℝ) (c : Condition) : Bool := !inputs.has c.variableName

/-- What is not given has no reading, whether it is declared or not. -/
theorem lookup_fuzzify (h : c.absent inputs) :
    (e.fuzzify inputs).lookup c.variableName = none := by
  have hnone : inputs.lookup c.variableName = none := by simpa [absent, Keyed.has] using h
  rw [Engine.lookup_fuzzify, hnone]
  cases e.find? c.variableName <;> rfl

/-- **A condition on a variable that is not given reads 0, and 1 if it is negated.** -/
theorem degree_of_absent (h : c.absent inputs) :
    c.degree (e.fuzzify inputs) = if c.negated then 1 else 0 := by
  simp [degree, lookup_fuzzify h, complement]

/-- Without any inputs every variable is absent. -/
theorem absent_nil (c : Condition) : c.absent [] := rfl

end Condition

/-- The negations of a rule suffice to let it fire: all of its conditions are negated, or at least
one of them, as the connective asks. -/
def Rule.vacuous (r : Rule ℝ) : Bool :=
  match r.connective with
  | .and => r.conditions.all (·.negated)
  | _ => r.conditions.any (·.negated)

/-- Where every variable is absent, the negations decide. -/
theorem Rule.joined_of_absent {t : TNorm ℝ} {s : TConorm} {r : Rule ℝ} {readings : Readings ℝ}
    (ht : t.Proper) (h : InUnit readings)
    (hd : ∀ c ∈ r.conditions, c.degree readings = if c.negated then 1 else 0) :
    r.joined t s readings = if r.vacuous then 1 else 0 := by
  by_cases ha : r.connective = .and
  · have hv : r.vacuous = r.conditions.all (·.negated) := by rw [vacuous, ha]
    rw [hv]
    split_ifs with hall
    · have hone : ∀ c ∈ r.conditions, c.degree readings = 1 := fun c hc => by
        rw [hd c hc, if_pos (List.all_eq_true.mp hall c hc)]
      rw [← joined_without_of_and (fun _ => true) ht h ha fun c hc _ => hone c hc,
        joined_of_and (r := r.without _) ha]
      simp [without, degrees]
    · refine joined_eq_zero ht h ha ?_
      obtain ⟨c, hc, hplain⟩ : ∃ c ∈ r.conditions, ¬ c.negated := by simpa using hall
      exact ⟨c, hc, by rw [hd c hc, if_neg hplain]⟩
  · have hv : r.vacuous = r.conditions.any (·.negated) := by
      unfold vacuous
      split
      · contradiction
      · rfl
    rw [hv]
    split_ifs with hany
    · obtain ⟨c, hc, hneg⟩ := List.any_eq_true.mp hany
      exact joined_eq_one h ha ⟨c, hc, by rw [hd c hc, if_pos hneg]⟩
    · have hzero : ∀ c ∈ r.conditions, c.degree readings = 0 := fun c hc => by
        rw [hd c hc, if_neg fun hneg => hany (List.any_eq_true.mpr ⟨c, hc, hneg⟩)]
      rw [← joined_without_of_ne_and (fun _ => true) h ha fun c hc _ => hzero c hc,
        joined_of_ne_and (r := r.without _) ha]
      simp [without, degrees]

namespace Engine

variable {e : Engine ℝ}

/-- Without any inputs a rule fires with its weight or not at all. -/
theorem exactStrength_no_inputs {t : TNorm ℝ} {s : TConorm} (ht : t.Proper) (r : Rule ℝ) :
    r.exactStrength t s (e.fuzzify []) = if r.vacuous then r.weight else 0 := by
  rw [Rule.exactStrength, Rule.joined_of_absent ht (e.inUnit_fuzzify [])
    fun c _ => Condition.degree_of_absent c.absent_nil, ite_mul, one_mul, zero_mul]

/-- **What conditions on absent variables do to a rule.**  They read 0 and, negated, 1.  Under "and"
a plain one keeps the rule from firing and a negated one does not count; under "or" it is the other
way round.  Without any inputs, then, a rule fires with its weight or not at all, as its negations
decide. -/
theorem strength_absent (hc : e.settings.Catalogued) (r : Rule ℝ) (inputs : Keyed ℝ) :
    (∀ c : Condition, c.absent inputs →
      c.degree (e.fuzzify inputs) = if c.negated then 1 else 0) ∧
    (r.connective = .and →
      ((∃ c ∈ r.conditions, c.absent inputs ∧ ¬ c.negated) →
        e.strength r (e.fuzzify inputs) = .ok 0) ∧
      e.strength (r.without fun c => c.absent inputs && c.negated) (e.fuzzify inputs) =
        e.strength r (e.fuzzify inputs)) ∧
    (r.connective ≠ .and →
      ((∃ c ∈ r.conditions, c.absent inputs ∧ c.negated) →
        e.strength r (e.fuzzify inputs) = .ok r.weight) ∧
      e.strength (r.without fun c => c.absent inputs && !c.negated) (e.fuzzify inputs) =
        e.strength r (e.fuzzify inputs)) ∧
    e.strength r (e.fuzzify []) = .ok (if r.vacuous then r.weight else 0) := by
  obtain ⟨t, s, i, a, z, hu⟩ := hc.uses
  have hin : InUnit (e.fuzzify inputs) := e.inUnit_fuzzify inputs
  have hstrength : ∀ q : Rule ℝ, e.strength q (e.fuzzify inputs) =
      .ok (q.joined t s (e.fuzzify inputs) * q.weight) := strength_eq hu hin
  have hread : ∀ c : Condition, c.absent inputs →
      c.degree (e.fuzzify inputs) = if c.negated then 1 else 0 :=
    fun c => Condition.degree_of_absent
  refine ⟨hread, fun ha => ⟨?_, ?_⟩, fun ha => ⟨?_, ?_⟩, ?_⟩
  · rintro ⟨c, hmem, habs, hplain⟩
    rw [hstrength, Rule.joined_eq_zero hu.proper hin ha
      ⟨c, hmem, by rw [hread c habs, if_neg hplain]⟩, zero_mul]
  · rw [hstrength, hstrength, Rule.joined_without_of_and _ hu.proper hin ha]
    · rfl
    · intro c _ hdrop
      obtain ⟨habs, hneg⟩ := Bool.and_eq_true_iff.mp hdrop
      rw [hread c habs, if_pos hneg]
  · rintro ⟨c, hmem, habs, hneg⟩
    rw [hstrength, Rule.joined_eq_one hin ha ⟨c, hmem, by rw [hread c habs, if_pos hneg]⟩, one_mul]
  · rw [hstrength, hstrength, Rule.joined_without_of_ne_and _ hin ha]
    · rfl
    · intro c _ hdrop
      obtain ⟨habs, hplain⟩ := Bool.and_eq_true_iff.mp hdrop
      rw [hread c habs, if_neg (by simpa using hplain)]
  · rw [strength_eq hu (e.inUnit_fuzzify []), exactStrength_no_inputs hu.proper]

end Engine

namespace Level

/-- If the level is low and the room is warm, or if one of the two is so, the level stays low. -/
noncomputable def lowWarm (connective : Connective) : Rule ℝ :=
  ⟨"warm", [⟨"level", "low", false⟩, ⟨"room", "warm", false⟩], ⟨"level", "low"⟩, 1, connective⟩

/-- If the level is not low it is high. -/
noncomputable def notLow (connective : Connective) : Rule ℝ :=
  ⟨"notLow", [⟨"level", "low", true⟩], ⟨"level", "high"⟩, 1, connective⟩

end Level

namespace Engine

/-- Where the level is given and the room is not, the room decides under "and" and does not count
under "or". -/
theorem strength_absent_level :
    ∃ e : Engine ℝ, e.settings.Catalogued ∧
      e.strength (Level.lowWarm .and) (e.fuzzify [("level", 0)]) = .ok 0 ∧
      e.strength { Level.lowWarm .or with conditions := [⟨"level", "low", false⟩] }
        (e.fuzzify [("level", 0)]) =
          e.strength (Level.lowWarm .or) (e.fuzzify [("level", 0)]) ∧
      e.strength (Level.lowWarm .or) (e.fuzzify []) = .ok 0 := by
  have hc := Settings.catalogued_minimum .maximum .mamdani .maximum .centroid (n := 4) (by decide)
  set e := Level.engine _ [] (by simp)
  obtain ⟨-, hand, -, -⟩ := strength_absent (e := e) hc (Level.lowWarm .and) [("level", 0)]
  obtain ⟨-, -, hor, hnone⟩ := strength_absent (e := e) hc (Level.lowWarm .or) [("level", 0)]
  refine ⟨e, hc, (hand rfl).1 ⟨⟨"room", "warm", false⟩, ?_, rfl, by decide⟩, ?_, hnone⟩
  · simp [Level.lowWarm]
  · exact (hor (by decide)).2

/-- **A negated condition on an absent variable does not read 0.**  Without any inputs it alone lets
a rule fire, and under "or" it cannot be left out. -/
theorem not_absentReadsZero :
    ∃ e : Engine ℝ, e.settings.Catalogued ∧ e.rules = [Level.notLow .and] ∧
      Condition.absent [] ⟨"level", "low", true⟩ ∧
      Condition.degree ⟨"level", "low", true⟩ (e.fuzzify []) = 1 ∧
      e.strength (Level.notLow .and) (e.fuzzify []) = .ok 1 ∧
      e.strength (Level.notLow .or) (e.fuzzify []) = .ok 1 ∧
      e.strength ((Level.notLow .or).without (Condition.absent [])) (e.fuzzify []) = .ok 0 ∧
      ∃ n, e.infer [] "level" = .ok n ∧ n.value.fired = [("notLow", 1)] := by
  have hc := Settings.catalogued_minimum .maximum .mamdani .maximum .centroid (n := 4) (by decide)
  set o := Settings.regular _ _ _ _ _ _ _
  have hu : o.Uses .minimum .maximum .mamdani .maximum .centroid :=
    ⟨trivial, rfl, rfl, rfl, rfl, rfl⟩
  have accepted : ∀ r ∈ [Level.notLow .and], r.fault? = none :=
    Rule.accepted_singleton zero_le_one (.inl rfl)
  set e := Level.engine o _ accepted
  have hstrength : ∀ r : Rule ℝ, e.strength r (e.fuzzify []) =
      .ok (if r.vacuous then r.weight else 0) := fun r => by
    rw [strength_eq hu (e.inUnit_fuzzify []), exactStrength_no_inputs hu.proper]
  have hsets : ∀ r ∈ e.rulesFor "level", (Level.level.set? r.conclusion.setName).isSome := by
    intro r hr
    rw [List.mem_singleton.mp (List.mem_of_mem_filter hr)]
    simp [Level.notLow, Level.level, Variable.set?]
  have hfired : e.exactFired .minimum .maximum [] "level" = [("notLow", 1)] := by
    have hrules : e.rulesFor "level" = [Level.notLow .and] := rfl
    rw [exactFired, hrules, List.map_singleton, exactStrength_no_inputs hu.proper]
    simp [Rule.vacuous, Level.notLow]
  obtain ⟨_, -, -, hn⟩ := infer_eq (e := e) hu (Level.find?_engine _) [] (concludes_of_sets hsets)
  refine ⟨e, hc, rfl, rfl, Condition.degree_of_absent rfl, ?_, ?_, ?_, _, hn, hfired⟩
  · rw [hstrength]
    simp [Rule.vacuous, Level.notLow]
  · rw [hstrength]
    simp [Rule.vacuous, Level.notLow]
  · rw [hstrength]
    simp [Rule.vacuous, Rule.without, Level.notLow, Condition.absent_nil]

end Engine
end Graded
