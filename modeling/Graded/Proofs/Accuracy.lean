/-
# How far expected filters are met

The accuracy of a reading of a query looks at four filters, one by one.  The value of a filter in a
record is what stands under its key, or else under the field of its attribute, or else null
(`Filters.read`).  A filter counts if its expected value is something, and it is met if the actual
value is equal to that one.  So the accuracy is a portion, the filters that are met among those that
count (`accuracy_object`), and it is 1 exactly if all of these are met.

A comparison thus knows the two records by what it reads in them.  No name stands for two filters
(`names_apart`), so a value may move from the one name of its filter to the other, and whatever is
under other names does not matter at all (`accuracy_lawful`).  Where no value is expected, neither
does the actual value.

Portions of up to four are what they should be in doubles as well as in exact arithmetic, so nothing
else is asked of the arithmetic (`Scalar.PortionsUpTo`).
-/
import Graded.Proofs.Exact
import Graded.Proofs.Success
import Graded.Comparison.Filters

namespace Graded

variable {α : Type} [Scalar α] {β : Type} {m n : ℕ}

/-! ## 1. Portions -/

namespace Scalar

/-- The portion of `m` among `n`; the whole, if there is nothing to take a portion of. -/
def portion (m n : ℕ) : α := if n = 0 then 1 else (m : α) / (n : α)

/-- In this arithmetic portions of up to `limit` are between nothing and the whole, and only all of
them are the whole. -/
def PortionsUpTo (α : Type) [Scalar α] (limit : ℕ) : Prop :=
  ∀ n ≤ limit, ∀ m ≤ n, (0 : α) ≤ portion m n ∧ (portion m n : α) ≤ 1 ∧
    (((portion m n : α) == 1) = true ↔ m = n)

theorem portionsUpTo_real (limit : ℕ) : PortionsUpTo ℝ limit := by
  intro n _ m hmn
  have hbeq : ((portion m n : ℝ) == 1) = true ↔ (portion m n : ℝ) = 1 := decide_eq_true_iff
  rw [hbeq, portion]
  split_ifs with hn
  · subst hn
    exact ⟨zero_le_one, le_rfl, iff_of_true rfl (Nat.le_zero.mp hmn)⟩
  · have hpos : (0 : ℝ) < n := Nat.cast_pos.mpr (Nat.pos_of_ne_zero hn)
    refine ⟨div_nonneg m.cast_nonneg hpos.le, ?_, ?_⟩
    · exact div_le_one_of_le₀ (Nat.cast_le.mpr hmn) hpos.le
    · rw [div_eq_one_iff_eq hpos.ne', Nat.cast_inj]

theorem portionsUpTo_double : PortionsUpTo Float 4 := by
  have hsmall : ∀ n < 5, ∀ m < n + 1, (0 : Float) ≤ portion m n ∧ (portion m n : Float) ≤ 1 ∧
      (((portion m n : Float) == 1) = true ↔ m = n) := by
    decide +kernel
  intro n hn m hmn
  exact hsmall n (Nat.lt_succ_of_le hn) m (Nat.lt_succ_of_le hmn)

end Scalar

namespace Filters

variable {actual expected filters filters' : Keyed (Document α)} {key : String}

/-! ## 2. What a comparison reads -/

/-- The value of a filter in a record. -/
def read (filters : Keyed (Document α)) (key : String) : Document α :=
  (filters.lookup key).getD ((filters.lookup (fieldOf key)).getD .null)

/-- A value is expected of the filter. -/
def expects (expected : Keyed (Document α)) (key : String) : Bool := (read expected key).holds

/-- The actual value of the filter is equal to the expected one. -/
def meets (actual expected : Keyed (Document α)) (key : String) : Bool :=
  (read actual key).same (read expected key)

theorem value_object (filters : Keyed (Document α)) (key : String) :
    value (.object filters) key = .ok (read filters key) := by
  simp only [value, read]
  cases filters.lookup key with
  | none => rfl
  | some v => rfl

theorem orNone_object (filters : Keyed (Document α)) :
    orNone (.object filters) = .object filters := by
  cases filters with
  | nil => rfl
  | cons m filters => rfl

/-- The verdict on one filter. -/
theorem compareOne_object (actual expected : Keyed (Document α)) (key : String) :
    compareOne (.object actual) (.object expected) key =
      .ok (if expects expected key then some (meets actual expected key) else none) := by
  rw [compareOne, value_object]
  change (if expects expected key then _ else _) = _
  cases expects expected key with
  | false => rfl
  | true => rw [value_object]; rfl

/-- The verdicts on the filters that count. -/
theorem filterMap_verdicts (counts met : β → Bool) (l : List β) :
    (l.map fun x => if counts x then some (met x) else none).filterMap id =
      (l.filter counts).map met := by
  induction l with
  | nil => rfl
  | cons x l ih =>
    cases h : counts x with
    | false => simpa [h] using ih
    | true => simpa [h] using ih

theorem count_true_map (met : β → Bool) (l : List β) : (l.map met).count true = l.countP met := by
  rw [List.count_eq_countP, List.countP_map]
  exact List.countP_congr fun x _ => by simp

/-- **The accuracy is the portion of the expected filters that are met.** -/
theorem accuracy_object (actual expected : Keyed (Document α)) :
    accuracy (.object actual) (.object expected) = .ok (Scalar.portion
      ((Attribute.filterKeys.filter (expects expected)).countP (meets actual expected))
      (Attribute.filterKeys.filter (expects expected)).length) := by
  rw [accuracy, orNone_object, orNone_object, mapM_ok fun key _ => compareOne_object _ _ key]
  simp only [bind, Except.bind, pure, Except.pure]
  rw [filterMap_verdicts, count_true_map, List.length_map, Scalar.portion]
  simp only [List.isEmpty_iff, List.map_eq_nil_iff, List.length_eq_zero_iff]
  split_ifs
  · rfl
  · rfl

/-- **A comparison knows the records by what it reads in them.** -/
theorem accuracy_congr {actual' expected' : Keyed (Document α)}
    (hexpected : ∀ key ∈ Attribute.filterKeys, read expected' key = read expected key)
    (hactual : ∀ key ∈ Attribute.filterKeys, expects expected key →
      read actual' key = read actual key) :
    (accuracy (.object actual') (.object expected') : Except (Fault α) α) =
      accuracy (.object actual) (.object expected) := by
  have hexpects : Attribute.filterKeys.filter (expects expected') =
      Attribute.filterKeys.filter (expects expected) := by
    refine List.filter_congr fun key hkey => ?_
    rw [expects, expects, hexpected key hkey]
  have hmeets : (Attribute.filterKeys.filter (expects expected)).countP (meets actual' expected') =
      (Attribute.filterKeys.filter (expects expected)).countP (meets actual expected) := by
    refine List.countP_congr fun key hkey => ?_
    obtain ⟨hkey, hcounts⟩ := List.mem_filter.mp hkey
    rw [meets, meets, hexpected key hkey, hactual key hkey hcounts]
  rw [accuracy_object, accuracy_object, hexpects, hmeets]

/-! ## 3. Names of filters -/

/-- The names under which the value of a filter may stand. -/
def names (key : String) : List String := [key, fieldOf key]

/-- **No name stands for two filters.** -/
theorem names_apart : ∀ key ∈ Attribute.filterKeys, ∀ other ∈ Attribute.filterKeys,
    key ≠ other → ∀ name ∈ names key, name ∉ names other := by
  decide

omit [Scalar α] in
/-- What is read of a filter is under its names. -/
theorem read_congr (h : ∀ name ∈ names key, filters'.lookup name = filters.lookup name) :
    read filters' key = read filters key := by
  rw [read, read, h key (by simp [names]), h (fieldOf key) (by simp [names])]

/-- The second record is the first one, but for a value that has moved from a name to another one,
under which there was nothing. -/
structure Moved (source target : String) (filters filters' : Keyed (Document α)) : Prop where
  free : filters.lookup target = none
  left : filters'.lookup source = none
  arrived : filters'.lookup target = filters.lookup source
  others : ∀ name, name ≠ source → name ≠ target → filters'.lookup name = filters.lookup name

/-- A value has moved from the one name of a filter to the other. -/
def Renamed (key : String) (filters filters' : Keyed (Document α)) : Prop :=
  Moved key (fieldOf key) filters filters' ∨ Moved (fieldOf key) key filters filters'

omit [Scalar α] in
/-- **A value is read under either name.** -/
theorem Renamed.read_eq (h : Renamed key filters filters') (hkey : key ∈ Attribute.filterKeys)
    {other : String} (hother : other ∈ Attribute.filterKeys) :
    read filters' other = read filters other := by
  by_cases hsame : other = key
  · subst hsame
    rcases h with h | h
    · rw [read, read, h.left, h.arrived, h.free]
      cases filters.lookup other with
      | none => rfl
      | some v => rfl
    · rw [read, read, h.left, h.arrived, h.free]
      cases filters.lookup (fieldOf other) with
      | none => rfl
      | some v => rfl
  · -- the names that the value moves between are those of another filter
    have hapart := names_apart other hother key hkey hsame
    refine read_congr fun name hname => ?_
    have hne : name ≠ key ∧ name ≠ fieldOf key := by
      simpa [names] using hapart name hname
    rcases h with h | h
    · exact h.others name hne.1 hne.2
    · exact h.others name hne.2 hne.1

/-! ## 4. The accuracy -/

/-- **What the accuracy says, and what it does not depend on.**  It is the portion of the expected
filters that are met, between 0 and 1, and it is 1 if and only if all of them are met.  A value may
stand under either name of its filter in both records.  Nothing else matters but what is under these
names, and in the actual record only under the names of filters that are expected. -/
theorem accuracy_lawful (h : Scalar.PortionsUpTo α Attribute.filterKeys.length)
    (actual expected : Keyed (Document α)) :
    (∃ a : α, accuracy (.object actual) (.object expected) = .ok a ∧ 0 ≤ a ∧ a ≤ 1 ∧
      ((a == 1) = true ↔ ∀ key ∈ Attribute.filterKeys,
        (read expected key).holds → (read actual key).same (read expected key)) ∧
      a = Scalar.portion
        ((Attribute.filterKeys.filter (expects expected)).countP (meets actual expected))
        (Attribute.filterKeys.filter (expects expected)).length) ∧
    (∀ key ∈ Attribute.filterKeys, ∀ actual', Renamed key actual actual' →
      (accuracy (.object actual') (.object expected) : Except (Fault α) α) =
        accuracy (.object actual) (.object expected)) ∧
    (∀ key ∈ Attribute.filterKeys, ∀ expected', Renamed key expected expected' →
      (accuracy (.object actual) (.object expected') : Except (Fault α) α) =
        accuracy (.object actual) (.object expected)) ∧
    (∀ actual', (∀ key ∈ Attribute.filterKeys, (read expected key).holds →
        ∀ name ∈ names key, actual'.lookup name = actual.lookup name) →
      (accuracy (.object actual') (.object expected) : Except (Fault α) α) =
        accuracy (.object actual) (.object expected)) ∧
    ∀ expected', (∀ key ∈ Attribute.filterKeys, ∀ name ∈ names key,
        expected'.lookup name = expected.lookup name) →
      (accuracy (.object actual) (.object expected') : Except (Fault α) α) =
        accuracy (.object actual) (.object expected) := by
  refine ⟨?_, ?_, ?_, ?_, ?_⟩
  · obtain ⟨h0, h1, hone⟩ := h _ (List.length_filter_le (expects expected) _) _
      (List.countP_le_length (p := meets actual expected))
    refine ⟨_, accuracy_object actual expected, h0, h1, hone.trans ?_, rfl⟩
    rw [List.countP_eq_length]
    simp only [List.mem_filter, and_imp, expects, meets]
  · intro key hkey actual' hmoved
    exact accuracy_congr (fun _ _ => rfl) fun other hother _ => hmoved.read_eq hkey hother
  · intro key hkey expected' hmoved
    exact accuracy_congr (fun other hother => hmoved.read_eq hkey hother) fun _ _ _ => rfl
  · intro actual' hagree
    exact accuracy_congr (fun _ _ => rfl) fun other hother hholds =>
      read_congr (hagree other hother hholds)
  · intro expected' hagree
    exact accuracy_congr (fun other hother => read_congr (hagree other hother)) fun _ _ _ => rfl

/-- A reading of a query, with the type of experience under the key of its filter. -/
def walk : Keyed (Document Float) :=
  [("experience_type", .text "outdoor"), ("difficulty", .text "easy")]

/-- The same reading, with the type of experience under the field of its attribute. -/
def walkByField : Keyed (Document Float) :=
  [("difficulty", .text "easy"), ("experienceType", .text "outdoor")]

/-- What was expected of it: another difficulty, and nothing of the time that is needed. -/
def climb : Keyed (Document Float) :=
  [("experienceType", .text "outdoor"), ("neededTime", .text ""), ("difficulty", .text "difficult")]

theorem renamed_walk : Renamed "experience_type" walk walkByField := by
  refine .inl ⟨rfl, rfl, rfl, fun name hkey hfield => ?_⟩
  have hfield : (name == "experienceType") = false := beq_eq_false_iff_ne.mpr hfield
  have hkey : (name == "experience_type") = false := beq_eq_false_iff_ne.mpr hkey
  simp [walk, walkByField, List.lookup_cons, hkey, hfield]

/-- In doubles, one of two expected filters is met, under whichever name it stands; a time that is
read, where none was expected, changes nothing. -/
theorem accuracy_lawful_walk :
    Scalar.PortionsUpTo ℝ 4 ∧ Scalar.PortionsUpTo Float 4 ∧
      Renamed "experience_type" walk walkByField ∧
      (∃ a : Float, accuracy (.object walk) (.object climb) = .ok a ∧ 0 ≤ a ∧ a ≤ 1 ∧
        (a == 1) = false) ∧
      (accuracy (.object walkByField) (.object climb) : Except (Fault Float) Float) =
        accuracy (.object walk) (.object climb) ∧
      (accuracy (.object (("needed_time", .text "a day") :: walk)) (.object climb) :
        Except (Fault Float) Float) = accuracy (.object walk) (.object climb) := by
  have hportions : Scalar.PortionsUpTo Float Attribute.filterKeys.length :=
    Scalar.portionsUpTo_double
  obtain ⟨⟨a, ha, h0, h1, hone, -⟩, hmoved, -, hchanged, -⟩ := accuracy_lawful hportions walk climb
  have hdifficult : ¬ (read walk "difficulty").same (read climb "difficulty") := by decide
  refine ⟨Scalar.portionsUpTo_real 4, hportions, renamed_walk, ⟨a, ha, h0, h1, ?_⟩,
    hmoved "experience_type" (by decide) _ renamed_walk, hchanged _ ?_⟩
  · refine Bool.eq_false_iff.mpr fun ha1 => hdifficult ?_
    exact hone.mp ha1 "difficulty" (by decide) (by decide)
  · intro key hkey hholds name hname
    have hother : name ≠ "needed_time" := by
      rintro rfl
      have hsame : key = "needed_time" := by
        by_contra hne
        exact names_apart key hkey "needed_time" (by decide) hne _ hname (by decide)
      subst hsame
      exact absurd hholds (by decide)
    simp [List.lookup_cons, beq_eq_false_iff_ne.mpr hother]

end Filters
end Graded
