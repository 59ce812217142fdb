/-
# Operators in order

Norms, conorms, implications and accumulations are compared on degrees.  Of two operations one
raises to the other (`Raises`) if operands that grow give results that grow, and all of them stay
degrees; so an operation that raises to itself is one that grows in both of its operands.

* Every proper norm raises to itself, and lies between the drastic norm and the minimum
  (`TNorm.drastic_le`, `TNorm.le_left`); every conorm lies between the maximum and the drastic
  conorm (`TConorm.le_left`, `TConorm.le_drastic`).  What is left of the two chains is one
  inequality of polynomials a link.
* An accumulation is a conorm (`Accumulation.value_eq_conorm`), so its chain is a part of theirs.
* Implications stand in a chain too, strength by strength (`Implication.pairwise_chain`), but only
  the first two of it grow with the strength (`Implication.raises_self`).
-/
import Graded.Proofs.Accumulation
import Graded.Proofs.Norm

namespace Graded

/-! ## 1. Degrees in order -/

/-- Two degrees, the first one not above the second. -/
structure Under (a b : ℝ) : Prop where
  nonneg : 0 ≤ a
  le : a ≤ b
  le_one : b ≤ 1

namespace Under

variable {a b c : ℝ}

theorem refl (h : a ∈ unitInterval) : Under a a := ⟨h.1, le_rfl, h.2⟩

theorem left (h : Under a b) : a ∈ unitInterval := ⟨h.nonneg, h.le.trans h.le_one⟩

theorem right (h : Under a b) : b ∈ unitInterval := ⟨h.nonneg.trans h.le, h.le_one⟩

theorem trans (h : Under a b) (h' : Under b c) : Under a c :=
  ⟨h.nonneg, h.le.trans h'.le, h'.le_one⟩

theorem zero : Under 0 0 := .refl unitInterval.zero_mem

theorem one : Under 1 1 := .refl unitInterval.one_mem

end Under

/-- Operands in order give results in order, of the first operation and of the second. -/
def Raises (f g : ℝ → ℝ → ℝ) : Prop :=
  ∀ ⦃a a' b b' : ℝ⦄, Under a a' → Under b b' → Under (f a b) (g a' b')

namespace Raises

variable {f g k : ℝ → ℝ → ℝ}

theorem trans (h : Raises f g) (h' : Raises g k) : Raises f k := fun _ _ _ _ ha hb =>
  (h ha hb).trans (h' (.refl ha.right) (.refl hb.right))

/-- A commutative operation raises to itself if it grows in one operand. -/
theorem of_comm (mem : ∀ ⦃a b⦄, a ∈ unitInterval → b ∈ unitInterval → f a b ∈ unitInterval)
    (comm : ∀ a b, f a b = f b a)
    (mono : ∀ ⦃a a' b⦄, Under a a' → b ∈ unitInterval → f a b ≤ f a' b) : Raises f f := by
  intro a a' b b' ha hb
  have h1 : f a b ≤ f a' b := mono ha hb.left
  have h2 : f a' b ≤ f a' b' := by
    rw [comm a' b, comm a' b']
    exact mono hb ha.right
  exact ⟨(mem ha.left hb.left).1, h1.trans h2, (mem ha.right hb.right).2⟩

/-- An operation raises to one that is nowhere below it and raises to itself. -/
theorem of_le (hg : Raises g g)
    (nonneg : ∀ ⦃a b⦄, a ∈ unitInterval → b ∈ unitInterval → 0 ≤ f a b)
    (le : ∀ ⦃a b⦄, a ∈ unitInterval → b ∈ unitInterval → f a b ≤ g a b) : Raises f g := by
  intro a a' b b' ha hb
  have h := hg ha hb
  exact ⟨nonneg ha.left hb.left, (le ha.left hb.left).trans h.le, h.le_one⟩

/-- **Folds rise with their steps**, their states and their lists. -/
theorem foldl (h : Raises f g) {a a' : ℝ} (ha : Under a a') {xs ys : List ℝ}
    (hxs : List.Forall₂ Under xs ys) : Under (xs.foldl f a) (ys.foldl g a') := by
  induction hxs generalizing a a' with
  | nil => exact ha
  | cons hx _ ih => exact ih (h ha hx)

/-- Links of a chain of operations are enough to compare any two of it. -/
theorem pairwise {β : Type} (value : β → ℝ → ℝ → ℝ) {l : List β}
    (h : l.IsChain fun x y => Raises (value x) (value y)) :
    l.Pairwise fun x y => Raises (value x) (value y) := by
  have : IsTrans β fun x y => Raises (value x) (value y) := ⟨fun _ _ _ => Raises.trans⟩
  exact List.isChain_iff_pairwise.mp h

end Raises

variable {a a' b b' : ℝ}

/-! ## 2. Norms -/

namespace TNorm

variable {t : TNorm ℝ}

theorem proper_drastic : (drastic : TNorm ℝ).Proper := trivial

/-- Hamacher's quotient grows: crosswise multiplied, both sides share all but one summand. -/
theorem value_hamacher_mono {gamma : ℝ} (hg : 0 ≤ gamma) (ha : Under a a')
    (hb : b ∈ unitInterval) : (hamacher gamma).value a b ≤ (hamacher gamma).value a' b := by
  have h0 := hamacherDenominator_nonneg hg ha.left hb
  have h0' := hamacherDenominator_nonneg hg ha.right hb
  rcases h0.eq_or_lt with hd | hd
  · have hab := mul_le_hamacherDenominator hg ha.left hb
    rw [value_hamacher, value_hamacher, ← hd, div_zero]
    exact div_nonneg (mul_nonneg ha.right.1 hb.1) h0'
  · rcases h0'.eq_or_lt with hd' | hd'
    · obtain ⟨rfl, ha', rfl⟩ := (hamacherDenominator_eq_zero hg ha.right hb).mp hd'.symm
      have : a = 0 := le_antisymm (ha' ▸ ha.le) ha.nonneg
      simp [this, ha']
    · rw [value_hamacher, value_hamacher, div_le_div_iff₀ hd hd']
      have hc : 0 ≤ gamma * (1 - b) + b :=
        add_nonneg (mul_nonneg hg (sub_nonneg.mpr hb.2)) hb.1
      have key : 0 ≤ (a' - a) * (b * (gamma * (1 - b) + b)) :=
        mul_nonneg (sub_nonneg.mpr ha.le) (mul_nonneg hb.1 hc)
      rw [hamacherDenominator_eq, hamacherDenominator_eq]
      linarith [key]

theorem value_mono (ht : t.Proper) (ha : Under a a') (hb : b ∈ unitInterval) :
    t.value a b ≤ t.value a' b := by
  cases t with
  | minimum =>
    rw [value, value, Scalar.least_eq_min, Scalar.least_eq_min]
    exact min_le_min ha.le le_rfl
  | product => exact mul_le_mul_of_nonneg_right ha.le hb.1
  | lukasiewicz =>
    rw [value, value, Scalar.greatest_eq_max, Scalar.greatest_eq_max]
    exact max_le_max le_rfl (by linarith [ha.le])
  | drastic =>
    have h' : (drastic : TNorm ℝ).value a' b ∈ unitInterval := value_mem proper_drastic ha.right hb
    by_cases h1 : a = 1
    · have : a' = 1 := le_antisymm ha.le_one (h1 ▸ ha.le)
      rw [h1, this]
    · by_cases h2 : b = 1
      · rw [h2, value_one proper_drastic ha.left, value_one proper_drastic ha.right]
        exact ha.le
      · rw [show (drastic : TNorm ℝ).value a b = 0 by simp [value, h1, h2]]
        exact h'.1
  | hamacher gamma => exact value_hamacher_mono ht ha hb

/-- **A proper norm grows in both degrees.** -/
theorem raises_self (ht : t.Proper) : Raises t.value t.value :=
  .of_comm (fun _ _ => value_mem ht) (value_comm t) fun _ _ _ => value_mono ht

/-- No conjunction is above its operands. -/
theorem le_left (ht : t.Proper) (ha : a ∈ unitInterval) (hb : b ∈ unitInterval) :
    t.value a b ≤ a :=
  calc t.value a b ≤ t.value a 1 := (raises_self ht (.refl ha) ⟨hb.1, hb.2, le_rfl⟩).le
    _ = a := value_one ht ha

/-- The absorbing element. -/
theorem value_zero (ht : t.Proper) (ha : a ∈ unitInterval) : t.value a 0 = 0 := by
  have h : t.value 0 a ≤ 0 := le_left ht unitInterval.zero_mem ha
  rw [value_comm]
  exact le_antisymm h (value_mem ht unitInterval.zero_mem ha).1

/-- The drastic norm is the least one. -/
theorem drastic_le (ht : t.Proper) (ha : a ∈ unitInterval) (hb : b ∈ unitInterval) :
    (drastic : TNorm ℝ).value a b ≤ t.value a b := by
  by_cases h1 : a = 1
  · rw [h1, value_comm _ 1 b, value_comm _ 1 b, value_one proper_drastic hb, value_one ht hb]
  · by_cases h2 : b = 1
    · rw [h2, value_one proper_drastic ha, value_one ht ha]
    · rw [show (drastic : TNorm ℝ).value a b = 0 by simp [value, h1, h2]]
      exact (value_mem ht ha hb).1

theorem lukasiewicz_le_product (ha : a ∈ unitInterval) (hb : b ∈ unitInterval) :
    (lukasiewicz : TNorm ℝ).value a b ≤ (product : TNorm ℝ).value a b := by
  have h : 0 ≤ (1 - a) * (1 - b) := mul_nonneg (sub_nonneg.mpr ha.2) (sub_nonneg.mpr hb.2)
  rw [show (lukasiewicz : TNorm ℝ).value a b = max 0 (a + b - 1) from Scalar.greatest_eq_max _ _]
  exact max_le (mul_nonneg ha.1 hb.1) (by simp only [value]; linarith)

/-- The quotient divides by at most 1. -/
theorem product_le_hamacher (ha : a ∈ unitInterval) (hb : b ∈ unitInterval) :
    (product : TNorm ℝ).value a b ≤ (hamacher 0).value a b := by
  have h : 0 ≤ (1 - a) * (1 - b) := mul_nonneg (sub_nonneg.mpr ha.2) (sub_nonneg.mpr hb.2)
  have hle : hamacherDenominator 0 a b ≤ 1 := by
    rw [hamacherDenominator_eq]
    linarith
  rcases (hamacherDenominator_nonneg le_rfl ha hb).eq_or_lt with hd | hd
  · obtain ⟨-, rfl, rfl⟩ := (hamacherDenominator_eq_zero le_rfl ha hb).mp hd.symm
    simp [value]
  · rw [value_hamacher, le_div_iff₀ hd]
    exact mul_le_of_le_one_right (mul_nonneg ha.1 hb.1) hle

/-- A conjunction is not above the minimum. -/
theorem le_minimum (ht : t.Proper) (ha : a ∈ unitInterval) (hb : b ∈ unitInterval) :
    t.value a b ≤ (minimum : TNorm ℝ).value a b := by
  rw [show (minimum : TNorm ℝ).value a b = min a b from Scalar.least_eq_min a b]
  exact le_min (le_left ht ha hb) (value_comm t a b ▸ le_left ht hb ha)

/-- The norms with a name, from the least to the greatest. -/
def chain : List (TNorm ℝ) := [drastic, lukasiewicz, product, hamacher 0, minimum]

/-- The chain holds the norms with a name and no other. -/
theorem mem_chain : t ∈ chain ↔ ∃ entry ∈ catalogue, t = entry.2 := by
  simp [chain, catalogue]
  tauto

/-- **Each norm of the chain raises to those after it.** -/
theorem pairwise_chain : chain.Pairwise fun t t' : TNorm ℝ => Raises t.value t'.value := by
  have link : ∀ {t t' : TNorm ℝ}, t.Proper → t'.Proper →
      (∀ ⦃a b : ℝ⦄, a ∈ unitInterval → b ∈ unitInterval → t.value a b ≤ t'.value a b) →
      Raises t.value t'.value := fun ht ht' =>
    .of_le (raises_self ht') fun _ _ ha hb => (value_mem ht ha hb).1
  have h0 : (hamacher 0 : TNorm ℝ).Proper := le_rfl
  refine Raises.pairwise value ?_
  simp only [chain, List.isChain_cons_cons, List.isChain_singleton, and_true]
  exact ⟨link trivial trivial fun _ _ => drastic_le trivial,
    link trivial trivial fun _ _ => lukasiewicz_le_product,
    link trivial h0 fun _ _ => product_le_hamacher,
    link h0 trivial fun _ _ => le_minimum h0⟩

end TNorm

/-! ## 3. Conorms -/

namespace TConorm

theorem value_mono (s : TConorm) (ha : Under a a') (hb : b ∈ unitInterval) :
    s.value a b ≤ s.value a' b := by
  cases s with
  | maximum =>
    rw [value, value, Scalar.greatest_eq_max, Scalar.greatest_eq_max]
    exact max_le_max ha.le le_rfl
  | probabilisticSum =>
    have h : 0 ≤ (a' - a) * (1 - b) :=
      mul_nonneg (sub_nonneg.mpr ha.le) (sub_nonneg.mpr hb.2)
    simp only [value]
    linarith
  | lukasiewicz =>
    rw [value, value, Scalar.least_eq_min, Scalar.least_eq_min]
    exact min_le_min le_rfl (by linarith [ha.le])
  | drastic =>
    have h := (value_mem drastic ha.left hb).2
    by_cases h1 : a' = 0
    · have : a = 0 := le_antisymm (h1 ▸ ha.le) ha.nonneg
      rw [h1, this]
    · by_cases h2 : b = 0
      · rw [h2, value_zero drastic ha.left, value_zero drastic ha.right]
        exact ha.le
      · rw [show drastic.value a' b = 1 by simp [value, h1, h2]]
        exact h

/-- **A conorm grows in both degrees.** -/
theorem raises_self (s : TConorm) : Raises s.value s.value :=
  .of_comm (fun _ _ => value_mem s) (value_comm s) fun _ _ _ => value_mono s

/-- No disjunction is below its operands. -/
theorem le_left (s : TConorm) (ha : a ∈ unitInterval) (hb : b ∈ unitInterval) :
    a ≤ s.value a b :=
  calc a = s.value a 0 := (value_zero s ha).symm
    _ ≤ s.value a b := (raises_self s (.refl ha) ⟨le_rfl, hb.1, hb.2⟩).le

/-- The absorbing element. -/
theorem value_one (s : TConorm) (ha : a ∈ unitInterval) : s.value a 1 = 1 := by
  have h : 1 ≤ s.value 1 a := le_left s unitInterval.one_mem ha
  rw [value_comm]
  exact le_antisymm (value_mem s unitInterval.one_mem ha).2 h

/-- A disjunction is not below the maximum. -/
theorem maximum_le (s : TConorm) (ha : a ∈ unitInterval) (hb : b ∈ unitInterval) :
    maximum.value a b ≤ s.value a b := by
  rw [show maximum.value a b = max a b from Scalar.greatest_eq_max a b]
  exact max_le (le_left s ha hb) (value_comm s a b ▸ le_left s hb ha)

theorem probabilisticSum_le_lukasiewicz (ha : a ∈ unitInterval) (hb : b ∈ unitInterval) :
    probabilisticSum.value a b ≤ lukasiewicz.value a b := by
  have h : 0 ≤ a * b := mul_nonneg ha.1 hb.1
  rw [show lukasiewicz.value a b = min 1 (a + b) from Scalar.least_eq_min 1 (a + b)]
  exact le_min (value_mem _ ha hb).2 (by simp only [value]; linarith)

/-- The drastic conorm is the greatest one. -/
theorem le_drastic (s : TConorm) (ha : a ∈ unitInterval) (hb : b ∈ unitInterval) :
    s.value a b ≤ drastic.value a b := by
  by_cases h1 : a = 0
  · rw [h1, value_comm s 0 b, value_comm drastic 0 b, value_zero s hb, value_zero drastic hb]
  · by_cases h2 : b = 0
    · rw [h2, value_zero s ha, value_zero drastic ha]
    · rw [show drastic.value a b = 1 by simp [value, h1, h2]]
      exact (value_mem s ha hb).2

/-- The conorms, from the least to the greatest. -/
def chain : List TConorm := [maximum, probabilisticSum, lukasiewicz, drastic]

/-- An inequality of conorms is enough to raise one to the other. -/
theorem raises_of_le {s s' : TConorm}
    (h : ∀ ⦃a b : ℝ⦄, a ∈ unitInterval → b ∈ unitInterval → s.value a b ≤ s'.value a b) :
    Raises s.value s'.value :=
  .of_le (raises_self s') (fun _ _ ha hb => (value_mem s ha hb).1) h

/-- **Each conorm of the chain raises to those after it.** -/
theorem pairwise_chain : chain.Pairwise fun s s' : TConorm => Raises s.value s'.value := by
  refine Raises.pairwise value ?_
  simp only [chain, List.isChain_cons_cons, List.isChain_singleton, and_true]
  exact ⟨raises_of_le fun _ _ => maximum_le _,
    raises_of_le fun _ _ => probabilisticSum_le_lukasiewicz,
    raises_of_le fun _ _ => le_drastic _⟩

end TConorm

/-! ## 4. Accumulations -/

namespace Accumulation

/-- The conorm that an accumulation is. -/
def conorm : Accumulation → TConorm
  | maximum => .maximum
  | boundedSum => .lukasiewicz
  | probabilisticSum => .probabilisticSum

/-- **In exact arithmetic an accumulation is a conorm.** -/
theorem value_eq_conorm (k : Accumulation) (z x : ℝ) : k.value z x = k.conorm.value z x := by
  cases k with
  | maximum => rw [value_maximum, conorm, TConorm.value, Scalar.greatest_eq_max]
  | boundedSum => rw [value_boundedSum, conorm, TConorm.value, Scalar.least_eq_min]
  | probabilisticSum => rfl

theorem raises_self (k : Accumulation) : Raises k.value k.value := by
  simpa only [Raises, value_eq_conorm] using k.conorm.raises_self

/-- The accumulations, from the least to the greatest. -/
def chain : List Accumulation := [maximum, probabilisticSum, boundedSum]

/-- The chain of accumulations is a part of the chain of conorms. -/
theorem sublist_chain : (chain.map conorm).Sublist TConorm.chain := by decide

/-- **Each accumulation of the chain raises to those after it.** -/
theorem pairwise_chain : chain.Pairwise fun k k' : Accumulation => Raises k.value k'.value := by
  have h := TConorm.pairwise_chain.sublist sublist_chain
  rw [List.pairwise_map] at h
  simpa only [Raises, value_eq_conorm] using h

end Accumulation

/-! ## 5. Implications -/

namespace Implication

variable {i : Implication} {strength mu : ℝ}

/-- A rule that fires with a degree implies degrees. -/
theorem value_mem (i : Implication) (hs : strength ∈ unitInterval) (hmu : mu ∈ unitInterval) :
    i.value strength mu ∈ unitInterval :=
  ⟨value_nonneg hs.1 hmu fun _ => hs.2, value_le_one hs.1 hmu fun _ => hs.2⟩

theorem larsen_le_mamdani (hs : strength ∈ unitInterval) (hmu : mu ∈ unitInterval) :
    larsen.value strength mu ≤ mamdani.value strength mu := by
  rw [value_larsen, value_mamdani]
  exact le_min (mul_le_of_le_one_right hs.1 hmu.2) (mul_le_of_le_one_left hmu.1 hs.2)

theorem mamdani_le_kleeneDienes (strength mu : ℝ) :
    mamdani.value strength mu ≤ kleeneDienes.value strength mu := by
  rw [value_mamdani, value_kleeneDienes]
  exact (min_le_right _ _).trans (le_max_right _ _)

theorem kleeneDienes_le_lukasiewicz (hs : strength ∈ unitInterval) (hmu : mu ∈ unitInterval) :
    kleeneDienes.value strength mu ≤ lukasiewicz.value strength mu := by
  rw [value_kleeneDienes, value_lukasiewicz]
  refine max_le (le_min ?_ ?_) (le_min hmu.2 ?_)
  · linarith [hs.1]
  · linarith [hmu.1]
  · linarith [hs.2]

/-- The implications, from the least to the greatest. -/
def chain : List Implication := [larsen, mamdani, kleeneDienes, lukasiewicz]

/-- **At every strength each implication of the chain implies no more than those after it.** -/
theorem pairwise_chain : chain.Pairwise fun i i' : Implication =>
    ∀ ⦃strength mu : ℝ⦄, strength ∈ unitInterval → mu ∈ unitInterval →
      Under (i.value strength mu) (i'.value strength mu) := by
  have link : ∀ {i i' : Implication} {strength mu : ℝ}, strength ∈ unitInterval →
      mu ∈ unitInterval → i.value strength mu ≤ i'.value strength mu →
      Under (i.value strength mu) (i'.value strength mu) := fun {i i'} _ _ hs hmu h =>
    ⟨(value_mem i hs hmu).1, h, (value_mem i' hs hmu).2⟩
  have : IsTrans Implication fun i i' => ∀ ⦃strength mu : ℝ⦄, strength ∈ unitInterval →
      mu ∈ unitInterval → Under (i.value strength mu) (i'.value strength mu) :=
    ⟨fun _ _ _ h h' _ _ hs hmu => (h hs hmu).trans (h' hs hmu)⟩
  rw [← List.isChain_iff_pairwise]
  simp only [chain, List.isChain_cons_cons, List.isChain_singleton, and_true]
  exact ⟨fun _ _ hs hmu => link hs hmu (larsen_le_mamdani hs hmu),
    fun _ _ hs hmu => link hs hmu (mamdani_le_kleeneDienes _ _),
    fun _ _ hs hmu => link hs hmu (kleeneDienes_le_lukasiewicz hs hmu)⟩

/-- Under the first two implications of the chain stronger rules imply more.  Under the other two
they imply less where the concluded set does not reach. -/
theorem raises_self (h : i = .mamdani ∨ i = .larsen) : Raises i.value i.value := by
  rintro a a' b b' ha hb
  refine ⟨(value_mem i ha.left hb.left).1, ?_, (value_mem i ha.right hb.right).2⟩
  rcases h with rfl | rfl
  · rw [value_mamdani, value_mamdani]
    exact min_le_min ha.le hb.le
  · exact mul_le_mul ha.le hb.le hb.nonneg ha.right.1

end Implication
end Graded
