/-
# How strongly a rule fires

In exact arithmetic the strength of a rule under a proper norm is a number, `exactStrength`, and
not a computation that may fail (`strength_eq`): the degrees of its conditions are degrees because
the readings are (`InUnit`), and no proper norm divides by zero on degrees.

The strength lies between 0 and the weight (`exactStrength_nonneg`, `exactStrength_le_weight`), and
the order of the conditions does not matter (`exactStrength_rearranged`).
-/
import Graded.Proofs.Norm
import Graded.Proofs.Sampling
import Graded.Engine.Inference

namespace Graded

variable {t : TNorm ℝ} {s : TConorm} {r r' : Rule ℝ} {readings : Readings ℝ}

/-! ## 1. Readings -/

/-- Every membership among the readings is a degree. -/
def InUnit (readings : Readings ℝ) : Prop := ∀ entry ∈ readings, ∀ g ∈ entry.2, g.2 ∈ unitInterval

theorem Grading.degreeOf_mem {grades : Grading ℝ} (h : ∀ g ∈ grades, g.2 ∈ unitInterval)
    (name : String) : grades.degreeOf name ∈ unitInterval := by
  unfold degreeOf
  cases hl : grades.lookup name with
  | none => exact unitInterval.zero_mem
  | some mu =>
    obtain ⟨before, after, rfl, -⟩ := List.lookup_eq_some_iff.mp hl
    exact h (name, mu) (by simp)

/-- A condition holds to a degree, also where its variable or its set is not there. -/
theorem Condition.degree_mem (h : InUnit readings) (c : Condition) :
    c.degree readings ∈ unitInterval := by
  have hmu : Grading.degreeOf ((readings.lookup c.variableName).getD []) c.setName ∈
      unitInterval := by
    cases hl : readings.lookup c.variableName with
    | none => exact unitInterval.zero_mem
    | some grades =>
      obtain ⟨before, after, rfl, -⟩ := List.lookup_eq_some_iff.mp hl
      exact Grading.degreeOf_mem (h (c.variableName, grades) (by simp)) c.setName
  unfold degree
  split
  · exact ⟨sub_nonneg.mpr hmu.2, sub_le_self 1 hmu.1⟩
  · exact hmu

namespace Rule

theorem degrees_mem (h : InUnit readings) (r : Rule ℝ) :
    ∀ mu ∈ r.degrees readings, mu ∈ unitInterval := by
  intro mu hmu
  obtain ⟨c, -, rfl⟩ := List.mem_map.mp hmu
  exact c.degree_mem h

/-! ## 2. Acceptable rules -/

/-- A rule is acceptable exactly if its weight is not negative and its connective means
something. -/
theorem fault?_eq_none_iff :
    r.fault? = none ↔ 0 ≤ r.weight ∧ (r.connective = .and ∨ r.connective = .or) := by
  unfold fault?
  split_ifs with hw
  · simp [hw]
  · cases hc : r.connective <;> simp [not_lt.mp hw]

/-- A single rule is acceptable on the same terms. -/
theorem accepted_singleton (hw : 0 ≤ r.weight) (hc : r.connective = .and ∨ r.connective = .or) :
    ∀ q ∈ [r], q.fault? = none :=
  List.forall_mem_singleton.mpr (fault?_eq_none_iff.mpr ⟨hw, hc⟩)

/-! ## 3. The strength as a number -/

/-- The degree to which the conditions of a rule hold together. -/
noncomputable def joined (t : TNorm ℝ) (s : TConorm) (r : Rule ℝ) (readings : Readings ℝ) : ℝ :=
  match r.connective with
  | .and => (r.degrees readings).foldl t.value 1
  | _ => s.any (r.degrees readings)

theorem joined_of_and (h : r.connective = .and) :
    r.joined t s readings = (r.degrees readings).foldl t.value 1 := by
  rw [joined, h]

/-- Whatever is not joined by "and" is joined by the conorm. -/
theorem joined_of_ne_and (h : r.connective ≠ .and) :
    r.joined t s readings = (r.degrees readings).foldl s.value 0 := by
  unfold joined
  split
  · contradiction
  · rfl

/-- The strength of a rule where nothing can fail. -/
noncomputable def exactStrength (t : TNorm ℝ) (s : TConorm) (r : Rule ℝ)
    (readings : Readings ℝ) : ℝ :=
  r.joined t s readings * r.weight

/-- **A rule fires with its exact strength**; nothing fails. -/
theorem strength_eq (ht : t.Proper) (h : InUnit readings) (r : Rule ℝ) :
    r.strength (.regular t) (.regular s) readings = .ok (r.exactStrength t s readings) := by
  unfold strength exactStrength joined
  cases r.connective with
  | and =>
    dsimp only
    rw [Chosen.all_regular, TNorm.all_eq ht (degrees_mem h r)]
    rfl
  | or => rfl
  | other _ => rfl

theorem joined_mem (ht : t.Proper) (h : InUnit readings) (r : Rule ℝ) :
    r.joined t s readings ∈ unitInterval := by
  unfold joined
  split
  · exact TNorm.foldl_value_mem ht (degrees_mem h r)
  · exact TConorm.any_mem s (degrees_mem h r)

theorem exactStrength_nonneg (ht : t.Proper) (h : InUnit readings) (hr : r.fault? = none) :
    0 ≤ r.exactStrength t s readings :=
  mul_nonneg (joined_mem ht h r).1 (fault?_eq_none_iff.mp hr).1

theorem exactStrength_le_weight (ht : t.Proper) (h : InUnit readings) (hr : r.fault? = none) :
    r.exactStrength t s readings ≤ r.weight :=
  mul_le_of_le_one_left (fault?_eq_none_iff.mp hr).1 (joined_mem ht h r).2

/-! ## 4. Conditions in another order -/

/-- The same rule with its conditions in another order. -/
structure Rearranged (r r' : Rule ℝ) : Prop where
  id : r'.id = r.id
  conditions : r.conditions.Perm r'.conditions
  conclusion : r'.conclusion = r.conclusion
  weight : r'.weight = r.weight
  connective : r'.connective = r.connective

/-- **The order of the conditions does not matter.** -/
theorem exactStrength_rearranged (ht : t.Proper) (h : InUnit readings) (hr : r.Rearranged r') :
    r'.exactStrength t s readings = r.exactStrength t s readings := by
  have hp : (r.degrees readings).Perm (r'.degrees readings) := hr.conditions.map _
  unfold exactStrength joined
  rw [hr.connective, hr.weight, TNorm.foldl_value_perm ht (degrees_mem h r) hp,
    TConorm.any_perm s (degrees_mem h r) hp]

end Rule

/-! ## 5. The readings of an engine -/

namespace FuzzySet

/-- A shape is cut off at the ends of the unit interval, so its values are degrees. -/
theorem degree_mem (f : FuzzySet ℝ) (x : ℝ) : f.shape.degree x ∈ unitInterval :=
  Scalar.clamp_mem _

end FuzzySet

/-- In exact arithmetic all inputs can be fuzzified. -/
theorem Engine.tooWide_eq_false (e : Engine ℝ) (inputs : Keyed ℝ) : e.tooWide inputs = false := by
  simp [Engine.tooWide, Variable.tooWide_eq_false]

theorem Engine.fuzzify?_eq (e : Engine ℝ) (inputs : Keyed ℝ) :
    e.fuzzify? inputs = .ok (e.fuzzify inputs) := by
  rw [Engine.fuzzify?, if_neg (by simp [e.tooWide_eq_false])]

/-- Whatever the inputs are, an engine reads degrees off them. -/
theorem Engine.inUnit_fuzzify (e : Engine ℝ) (inputs : Keyed ℝ) : InUnit (e.fuzzify inputs) := by
  intro entry hentry g hg
  obtain ⟨⟨name, x⟩, -, hx⟩ := List.mem_filterMap.mp hentry
  obtain ⟨v, -, rfl⟩ := Option.map_eq_some_iff.mp hx
  obtain ⟨f, -, rfl⟩ := List.mem_map.mp hg
  exact f.degree_mem x

end Graded
