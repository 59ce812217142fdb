/-
# What a single condition says of the strength

A rule never fires more strongly than its weight.  A rule joined by "and" never holds to a greater
degree than any one of its conditions, and one joined by "or" never to a lesser degree; and if the
readings change in favour of the conditions, the rule does not fire more weakly
(`Engine.strength_lawful`).

* A norm is nowhere above its operands and a conorm nowhere below them.  Both bounds carry over to
  folds by one induction, which asks of the order only that it is one (`foldl_rel`).
* A membership favours a rule by rising where it is asked for as it is, and by falling where it is
  negated (`Rule.Favoured`).  The degrees of the conditions then all rise, and so does every fold of
  an operation that grows in both operands (`Rule.under_joined`).
-/
import Graded.Proofs.Duality
import Graded.Proofs.Lifting

namespace Graded

variable {t : TNorm ℝ} {s : TConorm} {r : Rule ℝ} {readings others : Readings ℝ} {c : Condition}

/-! ## 1. Folds and their operands -/

/-- **A fold is on one side of all of its operands**, if its step is on that side of both of its
own. -/
theorem foldl_rel {R : ℝ → ℝ → Prop} {step : ℝ → ℝ → ℝ} (refl : ∀ a, R a a)
    (trans : ∀ ⦃a b c⦄, R a b → R b c → R a c)
    (mem : ∀ ⦃a b⦄, a ∈ unitInterval → b ∈ unitInterval → step a b ∈ unitInterval)
    (comm : ∀ a b, step a b = step b a)
    (left : ∀ ⦃a b⦄, a ∈ unitInterval → b ∈ unitInterval → R (step a b) a)
    {xs : List ℝ} (h : ∀ x ∈ xs, x ∈ unitInterval) {a : ℝ} (ha : a ∈ unitInterval) :
    R (xs.foldl step a) a ∧ ∀ x ∈ xs, R (xs.foldl step a) x := by
  induction xs generalizing a with
  | nil => exact ⟨refl a, by simp⟩
  | cons x xs ih =>
    obtain ⟨hx, hxs⟩ := List.forall_mem_cons.mp h
    obtain ⟨hstart, hrest⟩ := ih hxs (mem ha hx)
    have hright : R (step a x) x := comm a x ▸ left hx ha
    exact ⟨trans hstart (left ha hx), List.forall_mem_cons.mpr ⟨trans hstart hright, hrest⟩⟩

namespace Rule

/-- **A rule joined by "and" holds at most as far as each of its conditions.** -/
theorem joined_le_degree (ht : t.Proper) (h : InUnit readings) (ha : r.connective = .and)
    (hc : c ∈ r.conditions) : r.joined t s readings ≤ c.degree readings := by
  rw [joined_of_and ha]
  exact (foldl_rel (R := (· ≤ ·)) le_refl (fun _ _ _ => le_trans) (fun _ _ => TNorm.value_mem ht)
    (TNorm.value_comm t) (fun _ _ => TNorm.le_left ht) (degrees_mem h r)
    unitInterval.one_mem).2 _ (List.mem_map_of_mem hc)

/-- **A rule joined by "or" holds at least as far as each of its conditions.** -/
theorem degree_le_joined (h : InUnit readings) (ha : r.connective ≠ .and)
    (hc : c ∈ r.conditions) : c.degree readings ≤ r.joined t s readings := by
  rw [joined_of_ne_and ha]
  exact (foldl_rel (R := (· ≥ ·)) le_refl (fun _ _ _ => ge_trans) (fun _ _ => TConorm.value_mem s)
    (TConorm.value_comm s) (fun _ _ => TConorm.le_left s) (degrees_mem h r)
    unitInterval.zero_mem).2 _ (List.mem_map_of_mem hc)

end Rule

/-! ## 2. Readings that favour a rule -/

/-- The membership of a variable in one of its sets; 0 if the variable or the set is not there. -/
noncomputable def membershipIn (readings : Readings ℝ) (variableName setName : String) : ℝ :=
  Grading.degreeOf ((readings.lookup variableName).getD []) setName

/-- Memberships that a rule asks for as they are do not fall, and those that it negates do not rise.
One that it asks for both ways is kept; all others may change. -/
structure Rule.Favoured (r : Rule ℝ) (readings others : Readings ℝ) : Prop where
  raised : ∀ v s, ⟨v, s, false⟩ ∈ r.conditions →
    membershipIn readings v s ≤ membershipIn others v s
  lowered : ∀ v s, ⟨v, s, true⟩ ∈ r.conditions →
    membershipIn others v s ≤ membershipIn readings v s

/-- **Each condition holds to a greater degree** where the rule is favoured. -/
theorem Condition.under_degree (h : InUnit readings) (h' : InUnit others)
    (hf : r.Favoured readings others) (hc : c ∈ r.conditions) :
    Under (c.degree readings) (c.degree others) := by
  refine ⟨(c.degree_mem h).1, ?_, (c.degree_mem h').2⟩
  obtain ⟨v, s, negated⟩ := c
  cases negated with
  | false => exact hf.raised v s hc
  | true => exact sub_le_sub_left (hf.lowered v s hc) 1

/-- Where a rule is favoured its conditions hold together to a greater degree. -/
theorem Rule.joined_mono (ht : t.Proper) (h : InUnit readings) (h' : InUnit others)
    (hf : r.Favoured readings others) : r.joined t s readings ≤ r.joined t s others := by
  have hdegrees : List.Forall₂ Under (r.degrees readings) (r.degrees others) := by
    rw [Rule.degrees, Rule.degrees, List.forall₂_map_left_iff, List.forall₂_map_right_iff]
    exact List.forall₂_same.mpr fun c hc => Condition.under_degree h h' hf hc
  exact (under_joined (TNorm.raises_self ht) s.raises_self hdegrees).le

/-! ## 3. Strengths -/

/-- **The strength of a rule.**  Under a norm and a conorm with a name every rule fires, with a
strength between 0 and its weight; no rule that an engine accepts has a negative weight.  Joined by
"and", it fires at most as strongly as each of its conditions would with that weight, and otherwise
at least as strongly; and it never fires more weakly where the memberships have changed in its
favour. -/
theorem Engine.strength_lawful {e : Engine ℝ}
    (hnorm : ∃ entry ∈ TNorm.catalogue, e.settings.norm = .regular entry.2)
    (hconorm : ∃ entry ∈ TConorm.catalogue, e.settings.conorm = .regular entry.2)
    (r : Rule ℝ) (hw : 0 ≤ r.weight) (h : InUnit readings) :
    ∃ x, e.strength r readings = .ok x ∧ x ∈ Set.Icc 0 r.weight ∧
      (r.connective = .and → ∀ c ∈ r.conditions, x ≤ r.weight * c.degree readings) ∧
      (r.connective ≠ .and → ∀ c ∈ r.conditions, r.weight * c.degree readings ≤ x) ∧
      ∀ others, InUnit others → r.Favoured readings others →
        ∃ y, e.strength r others = .ok y ∧ x ≤ y := by
  obtain ⟨⟨_, t⟩, htmem, ht⟩ := hnorm
  obtain ⟨⟨_, s⟩, -, hs⟩ := hconorm
  have hproper : t.Proper := TNorm.proper_of_mem_catalogue htmem
  have hstrength : ∀ q, InUnit q → e.strength r q = .ok (r.joined t s q * r.weight) := by
    intro q hq
    rw [Engine.strength, ht, hs, Rule.strength_eq hproper hq, Rule.exactStrength]
  have hmem : r.joined t s readings ∈ unitInterval := Rule.joined_mem hproper h r
  refine ⟨_, hstrength readings h, ⟨mul_nonneg hmem.1 hw, mul_le_of_le_one_left hw hmem.2⟩,
    ?_, ?_, ?_⟩
  · intro ha c hc
    rw [mul_comm r.weight]
    exact mul_le_mul_of_nonneg_right (Rule.joined_le_degree hproper h ha hc) hw
  · intro ha c hc
    rw [mul_comm r.weight]
    exact mul_le_mul_of_nonneg_right (Rule.degree_le_joined h ha hc) hw
  · intro others h' hf
    refine ⟨_, hstrength others h', ?_⟩
    exact mul_le_mul_of_nonneg_right (Rule.joined_mono hproper h h' hf) hw

namespace Level

/-- The level is a little low, and the room rather warm. -/
noncomputable def mild : Readings ℝ := [("level", [("low", 0.25)]), ("room", [("warm", 0.75)])]

/-- The level is lower, and the room less warm. -/
noncomputable def chilly : Readings ℝ := [("level", [("low", 0.5)]), ("room", [("warm", 0.5)])]

end Level

/-- The rule fires if the level is low or the room is not warm.  As the level and the room become
lower and less warm it does not fire more weakly, and it fires at least as strongly as the negated
condition on the room would alone; joined by "and" it fires at most as strongly as that on the
level would. -/
theorem Engine.strength_lawful_chilly :
    ∃ e : Engine ℝ, (∃ entry ∈ TNorm.catalogue, e.settings.norm = .regular entry.2) ∧
      (∃ entry ∈ TConorm.catalogue, e.settings.conorm = .regular entry.2) ∧
      0 ≤ Level.lowOrCold.weight ∧ InUnit Level.mild ∧ InUnit Level.chilly ∧
      Level.lowOrCold.Favoured Level.mild Level.chilly ∧
      ∃ x y, e.strength Level.lowOrCold Level.mild = .ok x ∧
        e.strength Level.lowOrCold Level.chilly = .ok y ∧ x ∈ Set.Icc (0 : ℝ) 0.5 ∧
        0.5 * (1 - 0.75) ≤ x ∧ x ≤ y ∧
        ∃ z, e.strength { Level.lowOrCold with connective := .and } Level.mild = .ok z ∧
          z ≤ 0.5 * 0.25 := by
  have hc := Settings.catalogued_regular (t := .hamacher 0)
    ⟨("hamacher", .hamacher 0), by simp [TNorm.catalogue], rfl⟩ .drastic .mamdani .maximum
    .centroid (n := 4) (by decide)
  set e := Level.engine _ [] (by simp)
  have hw : 0 ≤ Level.lowOrCold.weight := by
    rw [Level.lowOrCold]
    norm_num
  have hmild : InUnit Level.mild := by
    simp [InUnit, Level.mild]
    norm_num
  have hchilly : InUnit Level.chilly := by
    simp [InUnit, Level.chilly]
    norm_num
  have hroom : membershipIn Level.mild "room" "warm" = 0.75 := rfl
  have hcooler : membershipIn Level.chilly "room" "warm" = 0.5 := rfl
  have hlevel : membershipIn Level.mild "level" "low" = 0.25 := rfl
  have hlower : membershipIn Level.chilly "level" "low" = 0.5 := rfl
  have hf : Level.lowOrCold.Favoured Level.mild Level.chilly := by
    constructor
    · intro v s hmem
      obtain ⟨rfl, rfl⟩ : v = "level" ∧ s = "low" := by simpa [Level.lowOrCold] using hmem
      rw [hlevel, hlower]
      norm_num
    · intro v s hmem
      obtain ⟨rfl, rfl⟩ : v = "room" ∧ s = "warm" := by simpa [Level.lowOrCold] using hmem
      rw [hroom, hcooler]
      norm_num
  obtain ⟨x, hx, hrange, -, hor, hmono⟩ := strength_lawful (e := e) hc.norm hc.conorm
    Level.lowOrCold hw hmild
  obtain ⟨y, hy, hle⟩ := hmono Level.chilly hchilly hf
  obtain ⟨z, hz, -, hand, -⟩ := strength_lawful (e := e) hc.norm hc.conorm
    { Level.lowOrCold with connective := .and } hw hmild
  have hcold := hor (by decide) ⟨"room", "warm", true⟩ (by simp [Level.lowOrCold])
  have hlow := hand rfl ⟨"level", "low", false⟩ (by simp [Level.lowOrCold])
  exact ⟨e, hc.norm, hc.conorm, hw, hmild, hchilly, hf, x, y, hx, hy, hrange, hcold, hle, z, hz,
    hlow⟩

end Graded
