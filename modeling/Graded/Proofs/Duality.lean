/-
# Conjunctions, disjunctions and their duals

On degrees the norms are conjunctions and the conorms are disjunctions (`Lawful`, at the neutral
elements 1 and 0), with Hamacher's family among them at every parameter that is not negative
(`operators_lawful`).

Four of the norms have the conorm beside them as their dual: negating both operands of the one
negates the result of the other (`dual_of_mem`).  Neither the truncations of the bounded pair nor
the tests for exactly 0 and 1 of the drastic pair ask for operands among the degrees, so this is an
identity over all numbers, and so is what follows from it:

* a fold through the conorm is the negated fold of the negations through the norm (`Dual.foldl`);
* negating a condition negates its degree, also where its variable is not given
  (`Condition.degree_flipped`);
* a rule joined by "or" therefore holds as far as the rule with all of its conditions negated and
  joined by "and" does not (`any_dual_all`).

The two folds start from neutral elements that are each other's negation, which is why lists
without degrees are no exception.
-/
import Graded.Proofs.Inference
import Graded.Proofs.Order

namespace Graded

/-! ## 1. The laws of operators -/

/-- What an operation on degrees obeys that is a conjunction or a disjunction with the given
neutral element. -/
structure Lawful (f : ℝ → ℝ → ℝ) (neutral : ℝ) : Prop where
  mem : ∀ a ∈ unitInterval, ∀ b ∈ unitInterval, f a b ∈ unitInterval
  comm : ∀ a ∈ unitInterval, ∀ b ∈ unitInterval, f a b = f b a
  assoc : ∀ a ∈ unitInterval, ∀ b ∈ unitInterval, ∀ c ∈ unitInterval,
    f (f a b) c = f a (f b c)
  mono : ∀ a ∈ unitInterval, ∀ b ∈ unitInterval, ∀ a' ∈ unitInterval, ∀ b' ∈ unitInterval,
    a ≤ a' → b ≤ b' → f a b ≤ f a' b'
  neutral : ∀ a ∈ unitInterval, f a neutral = a

/-- An operation that raises to itself grows in both operands. -/
theorem Raises.mono {f : ℝ → ℝ → ℝ} (h : Raises f f) :
    ∀ a ∈ unitInterval, ∀ b ∈ unitInterval, ∀ a' ∈ unitInterval, ∀ b' ∈ unitInterval,
      a ≤ a' → b ≤ b' → f a b ≤ f a' b' :=
  fun _ ha _ hb _ ha' _ hb' haa' hbb' => (h ⟨ha.1, haa', ha'.2⟩ ⟨hb.1, hbb', hb'.2⟩).le

/-- A proper norm is a conjunction. -/
theorem TNorm.lawful {t : TNorm ℝ} (ht : t.Proper) : Lawful t.value 1 where
  mem _ ha _ hb := value_mem ht ha hb
  comm a _ b _ := value_comm t a b
  assoc _ ha _ hb _ hc := value_assoc ht ha hb hc
  mono := (raises_self ht).mono
  neutral _ ha := value_one ht ha

/-- A conorm is a disjunction. -/
theorem TConorm.lawful (s : TConorm) : Lawful s.value (0 : ℝ) where
  mem _ ha _ hb := value_mem s ha hb
  comm a _ b _ := value_comm s a b
  assoc _ ha b _ _ hc := value_assoc s ha hc b
  mono := (raises_self s).mono
  neutral _ ha := value_zero s ha

/-- **The operators are what they are called.**  Each norm with a name, and Hamacher's quotient at
every parameter that is not negative, is a conjunction on the degrees and never fails there; each
conorm with a name is a disjunction.  Hamacher's denominator vanishes for the Hamacher product at
the degrees 0 and 0 and nowhere else, and the conjunction of these two is 0. -/
theorem operators_lawful :
    (∀ t : TNorm ℝ,
      (∃ entry ∈ TNorm.catalogue, t = entry.2) ∨ (∃ gamma, 0 ≤ gamma ∧ t = .hamacher gamma) →
      Lawful t.value 1 ∧
        ∀ a ∈ unitInterval, ∀ b ∈ unitInterval, t.apply a b = .ok (t.value a b)) ∧
    (∀ entry ∈ TConorm.catalogue, Lawful entry.2.value (0 : ℝ)) ∧
    (∀ gamma : ℝ, 0 ≤ gamma → ∀ a ∈ unitInterval, ∀ b ∈ unitInterval,
      (TNorm.hamacherDenominator gamma a b = 0 ↔ gamma = 0 ∧ a = 0 ∧ b = 0)) ∧
    (TNorm.hamacher (0 : ℝ)).apply 0 0 = .ok 0 := by
  refine ⟨?_, fun entry _ => entry.2.lawful, ?_, ?_⟩
  · intro t h
    have ht : t.Proper := by
      rcases h with ⟨entry, hentry, rfl⟩ | ⟨gamma, hgamma, rfl⟩
      · exact TNorm.proper_of_mem_catalogue hentry
      · exact hgamma
    exact ⟨TNorm.lawful ht, fun a ha b hb => TNorm.apply_eq ht ha hb⟩
  · exact fun gamma hgamma a ha b hb => TNorm.hamacherDenominator_eq_zero hgamma ha hb
  · rw [TNorm.apply_eq (t := .hamacher 0) le_rfl unitInterval.zero_mem unitInterval.zero_mem,
      TNorm.value_hamacher, zero_mul, zero_div]

/-- At the parameter 2 two halves come to a fifth. -/
theorem operators_lawful_hamacher :
    (0 : ℝ) ≤ 2 ∧ (1 / 2 : ℝ) ∈ unitInterval ∧ Lawful (TNorm.hamacher (2 : ℝ)).value 1 ∧
      (TNorm.hamacher (2 : ℝ)).apply (1 / 2) (1 / 2) = .ok (1 / 5) ∧
      ("max", TConorm.maximum) ∈ TConorm.catalogue ∧ Lawful TConorm.maximum.value (0 : ℝ) ∧
      TNorm.hamacherDenominator (2 : ℝ) (1 / 2) (1 / 2) ≠ 0 := by
  have hgamma : (0 : ℝ) ≤ 2 := zero_le_two
  have hhalf : (1 / 2 : ℝ) ∈ unitInterval := by norm_num
  have hmax : ("max", TConorm.maximum) ∈ TConorm.catalogue := by decide
  obtain ⟨hnorm, hconorm, hdenominator, -⟩ := operators_lawful
  obtain ⟨hlawful, happly⟩ := hnorm (.hamacher 2) (.inr ⟨2, hgamma, rfl⟩)
  refine ⟨hgamma, hhalf, hlawful, ?_, hmax, hconorm _ hmax, fun h => ?_⟩
  · rw [happly _ hhalf _ hhalf, TNorm.value_hamacher, TNorm.hamacherDenominator_eq]
    norm_num
  · exact two_ne_zero ((hdenominator 2 hgamma _ hhalf _ hhalf).mp h).1

/-! ## 2. Duals -/

/-- The norms that have a dual with a name, each with its dual. -/
def duals : List (TNorm ℝ × TConorm) :=
  [(.minimum, .maximum), (.product, .probabilisticSum), (.lukasiewicz, .lukasiewicz),
   (.drastic, .drastic)]

/-- The norm of two negations is the negation of the conorm. -/
def Dual (t : TNorm ℝ) (s : TConorm) : Prop :=
  ∀ a b, t.value (complement a) (complement b) = complement (s.value a b)

@[simp] theorem complement_complement (a : ℝ) : complement (complement a) = a := sub_sub_cancel 1 a

@[simp] theorem complement_zero : complement (0 : ℝ) = 1 := sub_zero 1

theorem complement_eq_one_iff {a : ℝ} : complement a = 1 ↔ a = 0 := sub_eq_self

/-- **Each of the four pairs is dual.** -/
theorem dual_of_mem {p : TNorm ℝ × TConorm} (h : p ∈ duals) : Dual p.1 p.2 := by
  simp only [duals, List.mem_cons, List.not_mem_nil, or_false] at h
  intro a b
  rcases h with rfl | rfl | rfl | rfl
  · simp only [TNorm.value, TConorm.value, Scalar.least_eq_min, Scalar.greatest_eq_max, complement]
    exact min_sub_sub_left 1 a b
  · simp only [TNorm.value, TConorm.value, complement]
    ring
  · simp only [TNorm.value, TConorm.value, Scalar.least_eq_min, Scalar.greatest_eq_max, complement]
    rw [← max_sub_sub_left, sub_self]
    congr 1
    ring
  · simp only [TNorm.value, TConorm.value, beq_iff_eq, complement_eq_one_iff]
    split_ifs
    · rfl
    · rfl
    · exact (sub_self 1).symm

/-- None of the four norms divides. -/
theorem apply_of_mem_duals {p : TNorm ℝ × TConorm} (h : p ∈ duals) (a b : ℝ) :
    p.1.apply a b = .ok (p.1.value a b) := by
  simp only [duals, List.mem_cons, List.not_mem_nil, or_false] at h
  rcases h with rfl | rfl | rfl | rfl <;> rfl

/-- **Folding negations through the norm negates the fold through the conorm**, wherever the two
start. -/
theorem Dual.foldl {t : TNorm ℝ} {s : TConorm} (h : Dual t s) (degrees : List ℝ) (a : ℝ) :
    (degrees.map complement).foldl t.value (complement a) =
      complement (degrees.foldl s.value a) := by
  induction degrees generalizing a with
  | nil => rfl
  | cons mu degrees ih => rw [List.map_cons, List.foldl_cons, List.foldl_cons, h, ih]

/-- The conjunction of a list of negations under one of the four norms. -/
theorem all_complement {p : TNorm ℝ × TConorm} (h : p ∈ duals) (degrees : List ℝ) :
    p.1.all (degrees.map complement) = .ok (complement (p.2.any degrees)) := by
  have hpure : p.1.apply = fun a b => pure (p.1.value a b) := funext₂ (apply_of_mem_duals h)
  rw [TNorm.all, hpure, List.foldlM_pure, ← complement_zero, (dual_of_mem h).foldl]
  rfl

/-! ## 3. Rules -/

/-- The condition with its negation put in or taken away. -/
def Condition.flipped (c : Condition) : Condition := { c with negated := !c.negated }

/-- **Flipping a condition negates its degree**, also if there is no reading of its variable. -/
theorem Condition.degree_flipped (c : Condition) (readings : Readings ℝ) :
    c.flipped.degree readings = complement (c.degree readings) := by
  cases h : c.negated <;> simp [Condition.degree, Condition.flipped, h]

/-- The rule that asks all the opposites at once. -/
def Rule.contrary (r : Rule ℝ) : Rule ℝ :=
  { r with conditions := r.conditions.map Condition.flipped, connective := .and }

theorem Rule.degrees_contrary (r : Rule ℝ) (readings : Readings ℝ) :
    r.contrary.degrees readings = (r.degrees readings).map complement := by
  simp [Rule.degrees, Rule.contrary, Condition.degree_flipped]

/-- **Disjunction is the dual of conjunction**, over lists of any length and hence over rules.
Under each of the four pairs of operators, the disjunction of degrees is the negated conjunction of
their negations; and a rule joined by "or" holds, before it is weighted, as far as the rule with
its conditions flipped and joined by "and" does not, whatever the readings are. -/
theorem any_dual_all {p : TNorm ℝ × TConorm} (h : p ∈ duals) :
    (∀ degrees : List ℝ,
      (p.1.all (degrees.map complement)).map complement = .ok (p.2.any degrees)) ∧
    ∀ e : Engine ℝ, e.settings.norm = .regular p.1 → e.settings.conorm = .regular p.2 →
      ∀ (r : Rule ℝ) (readings : Readings ℝ), r.connective = .or → 0 < r.weight →
        ∃ x y, e.strength r readings = .ok x ∧ e.strength r.contrary readings = .ok y ∧
          x / r.weight = complement (y / r.contrary.weight) := by
  refine ⟨fun degrees => ?_, fun e hnorm hconorm r readings hor hweight => ?_⟩
  · rw [all_complement h, Except.map, complement_complement]
  · set mu := p.2.any (r.degrees readings)
    have hdisjunction : e.strength r readings = .ok (mu * r.weight) := by
      simp only [Engine.strength, Rule.strength, hor, hconorm, Chosen.any_regular]
      rfl
    have hconjunction : e.strength r.contrary readings = .ok (complement mu * r.weight) := by
      have hand : r.contrary.connective = .and := rfl
      simp only [Engine.strength, Rule.strength, hand, hnorm, Chosen.all_regular,
        Rule.degrees_contrary, all_complement h]
      rfl
    refine ⟨_, _, hdisjunction, hconjunction, ?_⟩
    rw [mul_div_cancel_right₀ _ hweight.ne']
    exact (congrArg complement (mul_div_cancel_right₀ _ hweight.ne')).trans
      (complement_complement mu) |>.symm

/-- If the level is low or the room is not warm, the level stays low, with half the weight. -/
noncomputable def Level.lowOrCold : Rule ℝ :=
  ⟨"cold", [⟨"level", "low", false⟩, ⟨"room", "warm", true⟩], ⟨"level", "low"⟩, 0.5, .or⟩

/-- Where the room is not given, its negated condition holds altogether and the flipped one not at
all. -/
theorem any_dual_all_level :
    ∃ e : Engine ℝ, (TNorm.lukasiewicz, TConorm.lukasiewicz) ∈ duals ∧
      e.settings.norm = .regular .lukasiewicz ∧ e.settings.conorm = .regular .lukasiewicz ∧
      Level.lowOrCold.connective = .or ∧ 0 < Level.lowOrCold.weight ∧
      ∃ x y, e.strength Level.lowOrCold (e.fuzzify [("level", 1 / 4)]) = .ok x ∧
        e.strength Level.lowOrCold.contrary (e.fuzzify [("level", 1 / 4)]) = .ok y ∧
        x / Level.lowOrCold.weight = complement (y / Level.lowOrCold.contrary.weight) := by
  have hmem : (TNorm.lukasiewicz, TConorm.lukasiewicz) ∈ duals := by simp [duals]
  have hweight : 0 < Level.lowOrCold.weight := by
    rw [Level.lowOrCold]
    norm_num
  set o := Settings.regular (.lukasiewicz : TNorm ℝ) .lukasiewicz .mamdani .maximum .centroid 4
    (by decide)
  set e := Level.engine o [] (by simp)
  exact ⟨e, hmem, rfl, rfl, rfl, hweight,
    (any_dual_all hmem).2 e rfl rfl Level.lowOrCold (e.fuzzify [("level", 1 / 4)]) rfl hweight⟩

end Graded
