/-
# Averages that a quantifier guides

The weights of a guided average are what the quantifier gains from one step to the next, made to add
up to 1.  Their partial sums telescope: up to a place they come to what the quantifier has gained
there, in proportion to all that it gains (`sum_take_weights`).  Where it gains nothing on the whole
the weights are even, and the average is the mean (`weights_telescope`).

So the average stays between its values exactly if the quantifier stays between its ends
(`least_average_iff`, `greatest_average_iff`).  The quantifiers that there are never drop below the
lower end.  They may exceed the upper one, though, if they fall again before all elements are
reached, and then some average exceeds all of its values.  The quantifiers of the list and the
shoulders do not do this (`average_between`).
-/
import Graded.Proofs.Trends
import Graded.Proofs.Weighing

namespace Graded.Quantifier

variable {q : Quantifier ℝ} {n k : ℕ}

/-! ## 1. What a quantifier gains -/

theorem sum_take_gains {xs : List ℝ} (hk : k < xs.length) :
    ((gains xs).take k).sum = xs[k] - xs[0] := by
  induction xs generalizing k with
  | nil => cases hk
  | cons a xs ih =>
    cases k with
    | zero => simp
    | succ k =>
      cases xs with
      | nil => simp at hk
      | cons b xs =>
        have hrest := ih (Nat.lt_of_succ_lt_succ hk)
        simp only [gains, List.take_succ_cons, List.sum_cons, List.getElem_cons_succ,
          List.getElem_cons_zero] at hrest ⊢
        rw [hrest]
        ring

theorem length_steps (q : Quantifier ℝ) (n : ℕ) : (q.steps n).length = n + 1 := by
  simp [steps]

/-- Up to a step a quantifier has gained what it is there above what it is for nothing. -/
theorem sum_take_gains_steps (q : Quantifier ℝ) (hk : k ≤ n) :
    ((gains (q.steps n)).take k).sum = q.degree (k / n) - q.degree 0 := by
  rw [sum_take_gains (by rw [length_steps]; omega)]
  simp [steps]

theorem total_gains_steps (q : Quantifier ℝ) (hn : 0 < n) :
    Scalar.total (gains (q.steps n)) = q.degree 1 - q.degree 0 := by
  have hlength : (gains (q.steps n)).length = n := by
    rw [length_gains, length_steps, Nat.add_sub_cancel]
  have hall := sum_take_gains_steps q (le_refl n)
  rwa [List.take_of_length_le hlength.le, div_self (Nat.cast_ne_zero.mpr hn.ne'),
    ← Scalar.total_eq_sum] at hall

/-! ## 2. Weights -/

theorem weights_of_le (hn : 0 < n) (h : q.degree 1 ≤ q.degree 0) :
    q.weights n = List.replicate n (1 / n : ℝ) := by
  have htotal : ¬ 0 < Scalar.total (gains (q.steps n)) := by
    rw [total_gains_steps q hn]
    exact (sub_nonpos.mpr h).not_gt
  rw [weights, if_neg hn.ne']
  simp only [if_neg htotal]
  rw [List.map_const', List.length_range]

theorem weights_of_lt (hn : 0 < n) (h : q.degree 0 < q.degree 1) :
    q.weights n = (gains (q.steps n)).map (· / (q.degree 1 - q.degree 0)) := by
  have htotal : 0 < Scalar.total (gains (q.steps n)) := by
    rw [total_gains_steps q hn]
    exact sub_pos.mpr h
  rw [weights, if_neg hn.ne']
  simp only [if_pos htotal]
  rw [total_gains_steps q hn]

theorem length_weights (q : Quantifier ℝ) (hn : 0 < n) : (q.weights n).length = n := by
  rcases le_or_gt (q.degree 1) (q.degree 0) with h | h
  · rw [weights_of_le hn h, List.length_replicate]
  · rw [weights_of_lt hn h, List.length_map, length_gains, length_steps, Nat.add_sub_cancel]

/-- **The partial sums of the weights telescope.** -/
theorem sum_take_weights (h : q.degree 0 < q.degree 1) (hn : 0 < n) (hk : k ≤ n) :
    ((q.weights n).take k).sum =
      (q.degree (k / n) - q.degree 0) / (q.degree 1 - q.degree 0) := by
  rw [weights_of_lt hn h, ← List.map_take]
  simp only [div_eq_inv_mul, Scalar.sum_scaled, sum_take_gains_steps q hk]

theorem sum_take_weights_of_le (h : q.degree 1 ≤ q.degree 0) (hn : 0 < n) (hk : k ≤ n) :
    ((q.weights n).take k).sum = k / n := by
  rw [weights_of_le hn h, List.take_replicate, min_eq_left hk, List.sum_replicate, nsmul_eq_mul,
    mul_one_div]

theorem sum_weights (q : Quantifier ℝ) (hn : 0 < n) : (q.weights n).sum = 1 := by
  have hne : (n : ℝ) ≠ 0 := Nat.cast_ne_zero.mpr hn.ne'
  have hall : (q.weights n).take n = q.weights n :=
    List.take_of_length_le (length_weights q hn).le
  rcases le_or_gt (q.degree 1) (q.degree 0) with h | h
  · rw [← hall, sum_take_weights_of_le h hn le_rfl, div_self hne]
  · rw [← hall, sum_take_weights h hn le_rfl, div_self hne, div_self (sub_pos.mpr h).ne']

theorem average_eq (q : Quantifier ℝ) (hn : 0 < n) {values : List ℝ} (h : values.length = n) :
    q.average values = weighted (q.weights n) (Scalar.descending values) := by
  have hne : values ≠ [] := List.ne_nil_of_length_pos (h ▸ hn)
  rw [average, if_neg (by simpa using hne), Scalar.total_eq_sum, h, weighted]

/-- **The weights of a quantifier.**  There are as many as there are values, they add up to 1, and
their partial sums say how far the quantifier has come; where it gains nothing they are even, and
the average that it guides is the mean. -/
theorem weights_telescope (q : Quantifier ℝ) (hn : 0 < n) :
    (q.weights n).length = n ∧ (q.weights n).sum = 1 ∧
      (q.degree 1 ≤ q.degree 0 → q.weights n = List.replicate n (1 / n : ℝ)) ∧
      (q.degree 0 < q.degree 1 → ∀ k ≤ n, ((q.weights n).take k).sum =
        (q.degree (k / n) - q.degree 0) / (q.degree 1 - q.degree 0)) ∧
      (q.degree 1 ≤ q.degree 0 → ∀ values : List ℝ, values ≠ [] →
        q.average values = values.sum / values.length) := by
  refine ⟨length_weights q hn, sum_weights q hn, weights_of_le hn,
    fun h k hk => sum_take_weights h hn hk, ?_⟩
  intro h values hne
  have heven : ∀ (xs : List ℝ) (w : ℝ), weighted (List.replicate xs.length w) xs = w * xs.sum := by
    intro xs w
    induction xs with
    | nil => simp
    | cons x xs ih =>
      rw [List.length_cons, List.replicate_succ, weighted_cons, ih, List.sum_cons, mul_add]
  have hlength : 0 < values.length := List.length_pos_iff.mpr hne
  have hperm := Scalar.descending_perm values
  rw [average_eq q hlength rfl, weights_of_le hlength h, ← hperm.length_eq, heven, hperm.sum_eq,
    hperm.length_eq, one_div_mul_eq_div]

/-- The one step between none of two elements and both of them. -/
theorem one_of_two : ((1 : ℕ) / (2 : ℕ) : ℝ) = 0.5 := by norm_num

/-- A quantifier that grows up to a half. -/
noncomputable def half : Quantifier ℝ := ⟨"at_least_half", .rightShoulder 0.0 0.5, .rising⟩

/-- Of two values this one gives all weight to the greater.  "Most" gains nothing, and guides to the
mean. -/
theorem weights_telescope_half :
    0 < 2 ∧ half.degree 0 < half.degree 1 ∧ ((half.weights 2).take 1).sum = 1 ∧
      ∃ q : Quantifier ℝ, find "most" = .ok q ∧ q.degree 1 ≤ q.degree 0 ∧
        q.average [1, 0] = 1 / 2 := by
  have hhalf : half.degree 0 = 0 ∧ half.degree 0.5 = 1 ∧ half.degree 1 = 1 := by
    norm_num [degree, half, Shape.degree, Shape.raw, Shape.rightShoulderRaw, Scalar.clamp_eq]
  obtain ⟨h0, h2, h1⟩ := hhalf
  have hgains : half.degree 0 < half.degree 1 := by
    rw [h0, h1]
    exact zero_lt_one
  have hmost : find "most" = .ok (⟨"most", .triangular 0.65 0.8 0.95, .rising⟩ : Quantifier ℝ) :=
    rfl
  have hnone : (⟨"most", .triangular 0.65 0.8 0.95, .rising⟩ : Quantifier ℝ).degree 1 ≤
      (⟨"most", .triangular 0.65 0.8 0.95, .rising⟩ : Quantifier ℝ).degree 0 := by
    norm_num [degree, Shape.degree, Shape.raw, Shape.triangularRaw, Shape.between, Scalar.clamp_eq]
  obtain ⟨-, -, -, hsums, -⟩ := weights_telescope half two_pos
  obtain ⟨-, -, -, -, hmean⟩ := weights_telescope
    (⟨"most", .triangular 0.65 0.8 0.95, .rising⟩ : Quantifier ℝ) two_pos
  refine ⟨two_pos, hgains, ?_, _, hmost, hnone, ?_⟩
  · rw [hsums hgains 1 one_le_two, one_of_two, h0, h1, h2]
    norm_num
  · rw [hmean hnone _ (by simp)]
    norm_num

/-! ## 3. Averages -/

/-- What holds of all partial sums is said of the quantifier, unless the weights are even. -/
theorem forall_partial_iff {P : ℝ → Prop} (q : Quantifier ℝ) (hn : 0 < n)
    (heven : ∀ k ≤ n, P (k / n)) :
    (∀ k, P ((q.weights n).take k).sum) ↔ q.degree 1 ≤ q.degree 0 ∨
      ∀ k ≤ n, P ((q.degree (k / n) - q.degree 0) / (q.degree 1 - q.degree 0)) := by
  have hwithin : (∀ k, P ((q.weights n).take k).sum) ↔ ∀ k ≤ n, P ((q.weights n).take k).sum := by
    refine ⟨fun h k _ => h k, fun h k => ?_⟩
    rcases le_total k n with hk | hk
    · exact h k hk
    · have hall := h n le_rfl
      rw [List.take_of_length_le (length_weights q hn).le] at hall
      rwa [List.take_of_length_le ((length_weights q hn).le.trans hk)]
  rw [hwithin]
  rcases le_or_gt (q.degree 1) (q.degree 0) with h | h
  · refine iff_of_true (fun k hk => ?_) (.inl h)
    rw [sum_take_weights_of_le h hn hk]
    exact heven k hk
  · rw [or_iff_right h.not_ge]
    refine forall₂_congr fun k hk => ?_
    rw [sum_take_weights h hn hk]

/-- **A guided average does not drop below its values** exactly if the quantifier gains nothing, or
never drops below its lower end. -/
theorem least_average_iff (q : Quantifier ℝ) (hn : 0 < n) :
    (∀ values : List ℝ, values.length = n → ∃ x ∈ values, x ≤ q.average values) ↔
      q.degree 1 ≤ q.degree 0 ∨ ∀ k ≤ n, q.degree 0 ≤ q.degree (k / n) := by
  have hweights := least_iff (sum_weights q hn)
  have hsums := forall_partial_iff (P := (0 ≤ ·)) q hn fun k _ => div_nonneg k.cast_nonneg
    n.cast_nonneg
  rw [length_weights q hn] at hweights
  refine (forall₂_congr fun values hlength => by rw [average_eq q hn hlength]).trans
    (hweights.trans (hsums.trans (or_congr_right' fun h => forall₂_congr fun k _ => ?_)))
  rw [le_div_iff₀ (sub_pos.mpr (not_le.mp h)), zero_mul, sub_nonneg]

/-- **It does not exceed them** exactly if the quantifier gains nothing, or never exceeds its upper
end. -/
theorem greatest_average_iff (q : Quantifier ℝ) (hn : 0 < n) :
    (∀ values : List ℝ, values.length = n → ∃ x ∈ values, q.average values ≤ x) ↔
      q.degree 1 ≤ q.degree 0 ∨ ∀ k ≤ n, q.degree (k / n) ≤ q.degree 1 := by
  have hweights := greatest_iff (sum_weights q hn)
  have hsums := forall_partial_iff (P := (· ≤ 1)) q hn fun k hk =>
    div_le_one_of_le₀ (Nat.cast_le.mpr hk) n.cast_nonneg
  rw [length_weights q hn] at hweights
  refine (forall₂_congr fun values hlength => by rw [average_eq q hn hlength]).trans
    (hweights.trans (hsums.trans (or_congr_right' fun h => forall₂_congr fun k _ => ?_)))
  rw [div_le_one (sub_pos.mpr (not_le.mp h)), sub_le_sub_iff_right]

/-! ## 4. Quantifiers that there are -/

/-- The quantifier is found under its name, or a definition makes it. -/
inductive Obtainable : Quantifier ℝ → Prop
  | found {name : String} {q : Quantifier ℝ} : find name = .ok q → Obtainable q
  | defined {name kind : String} {params : List (Document ℝ)} {q : Quantifier ℝ} :
      define name kind params = .ok q → Obtainable q

theorem mem_of_find {name : String} (h : find name = .ok q) : q ∈ relative := by
  unfold find at h
  cases hfound : (relative : List (Quantifier ℝ)).find? fun r => r.name == name with
  | none =>
    rw [hfound] at h
    cases h
  | some r =>
    rw [hfound] at h
    cases h
    exact List.mem_of_find?_eq_some hfound

theorem Obtainable.formed (h : Obtainable q) : ∃ t, Formed q.shape t := by
  cases h with
  | found h => exact formed_of_mem (mem_of_find h)
  | defined h => exact ⟨q.trend, formed_of_define h⟩

/-- A quantifier of the list gains nothing, or grows all the way. -/
theorem degree_one_le_or_monotone (hq : q ∈ relative) :
    q.degree 1 ≤ q.degree 0 ∨ MonotoneOn q.degree unitInterval := by
  have htriangle : ∀ {a b c : ℝ}, a < b → b < c → c ≤ 1 →
      (Shape.triangular a b c).degree 1 ≤ (Shape.triangular a b c).degree 0 := by
    intro a b c hab hbc hc
    have hzero : ¬ 0 < (Shape.triangular a b c).degree 1 := fun hpos =>
      ((Shape.degree_triangular_pos_iff hab hbc).mp hpos).2.not_ge hc
    exact (not_lt.mp hzero).trans (Scalar.clamp_mem _).1
  simp only [relative, List.mem_cons, List.not_mem_nil, or_false] at hq
  rcases hq with rfl | rfl | rfl | rfl | rfl | rfl | rfl | rfl | rfl
  case inl => exact .inl (Shape.degree_leftShoulder_anti (by norm_num) zero_le_one)
  case inr.inr.inr.inr.inr.inr.inr.inr =>
    exact .inr ((Shape.degree_rightShoulder_mono (by norm_num)).monotoneOn _)
  all_goals exact .inl (htriangle (by norm_num) (by norm_num) (by norm_num))

/-- So does one that a definition makes, if it states a trend. -/
theorem Formed.degree_one_le_or_monotone {s : Shape ℝ} {t : Trend} (h : Formed s t)
    (ht : t ≠ .unstated) : s.degree 1 ≤ s.degree 0 ∨ MonotoneOn s.degree unitInterval := by
  have hholds := h.holds
  cases t with
  | rising => exact .inr hholds
  | falling => exact .inl (hholds unitInterval.zero_mem unitInterval.one_mem zero_le_one)
  | unstated => exact absurd rfl ht

theorem step_mem (hk : k ≤ n) : (k / n : ℝ) ∈ unitInterval :=
  ⟨div_nonneg k.cast_nonneg n.cast_nonneg,
    div_le_one_of_le₀ (Nat.cast_le.mpr hk) n.cast_nonneg⟩

/-- **How far a guided average is an average.**  It never drops below its values.  Averages of `n`
values never exceed them exactly if the quantifier gains nothing, or is at none of the steps above
what it is for all elements.  Those of the list and the shoulders are like that for every `n`. -/
theorem average_between (hq : Obtainable q) :
    (∀ values : List ℝ, values ≠ [] → ∃ x ∈ values, x ≤ q.average values) ∧
      (∀ n : ℕ, 0 < n →
        ((∀ values : List ℝ, values.length = n → ∃ x ∈ values, q.average values ≤ x) ↔
          q.degree 1 ≤ q.degree 0 ∨ ∀ k ≤ n, q.degree (k / n) ≤ q.degree 1)) ∧
      ((∃ name, find name = .ok q) ∨ q.trend ≠ .unstated →
        ∀ values : List ℝ, values ≠ [] → ∃ x ∈ values, q.average values ≤ x) := by
  refine ⟨?_, fun n hn => greatest_average_iff q hn, ?_⟩
  · intro values hne
    obtain ⟨t, hformed⟩ := hq.formed
    refine (least_average_iff q (List.length_pos_iff.mpr hne)).mpr ?_ values rfl
    rcases le_or_gt (q.degree 1) (q.degree 0) with h | h
    · exact .inl h
    · refine .inr fun k hk => ?_
      have hmin : min (q.degree 0) (q.degree 1) ≤ q.degree (k / values.length) :=
        hformed.min_le (step_mem hk).1 (step_mem hk).2
      rwa [min_eq_left h.le] at hmin
  · intro hstated values hne
    have hgains : q.degree 1 ≤ q.degree 0 ∨ MonotoneOn q.degree unitInterval := by
      cases hq with
      | found h => exact degree_one_le_or_monotone (mem_of_find h)
      | defined h =>
        rcases hstated with ⟨name, hfind⟩ | ht
        · exact degree_one_le_or_monotone (mem_of_find hfind)
        · exact (formed_of_define h).degree_one_le_or_monotone ht
    refine (greatest_average_iff q (List.length_pos_iff.mpr hne)).mpr ?_ values rfl
    refine hgains.imp_right fun hmono k hk => ?_
    exact hmono (step_mem hk) unitInterval.one_mem (step_mem hk).2

/-! ## 5. An average above its values -/

/-- A quantifier that is at its height at a half, and for all elements at two thirds of it. -/
noncomputable def early : Quantifier ℝ := ⟨"early", .triangular 0.0 0.5 2.0, .unstated⟩

theorem define_early :
    define "early" "triangular" [.real 0.0, .real 0.5, .real 2.0] = .ok early :=
  define_triangular "early" (by norm_num) (by norm_num)

theorem degree_early : early.degree 0 = 0 ∧ early.degree 0.5 = 1 ∧ early.degree 1 = 2 / 3 := by
  norm_num [degree, early, Shape.degree, Shape.raw, Shape.triangularRaw, Shape.between, Shape.rise,
    Shape.fall, Scalar.clamp_eq]

/-- The average of 1 and 0 is one and a half. -/
theorem average_early : early.average [1, 0] = 3 / 2 := by
  obtain ⟨h0, hhalf, h1⟩ := degree_early
  have hgains : early.degree 0 < early.degree 1 := by
    rw [h0, h1]
    norm_num
  have hvalues : ([1, 0] : List ℝ) = upTo (early.weights 2).length 1 := by
    rw [length_weights early two_pos]
    rfl
  rw [average_eq early two_pos rfl, hvalues, weighted_descending_upTo,
    sum_take_weights hgains two_pos one_le_two, one_of_two, h0, hhalf, h1]
  norm_num

/-- Averages of one value keep to it, those of two values may exceed both, and those under "all" do
not. -/
theorem average_between_early :
    Obtainable early ∧ (∃ x ∈ [1, 0], x ≤ early.average [1, 0]) ∧
      (∀ values : List ℝ, values.length = 1 → ∃ x ∈ values, early.average values ≤ x) ∧
      (¬ ∀ values : List ℝ, values.length = 2 → ∃ x ∈ values, early.average values ≤ x) ∧
      ∃ q : Quantifier ℝ, find "all" = .ok q ∧ ∃ x ∈ [1, 0], q.average [1, 0] ≤ x := by
  obtain ⟨h0, hhalf, h1⟩ := degree_early
  have hearly : Obtainable early := .defined define_early
  have hall : find "all" = .ok (⟨"all", .rightShoulder 0.95 1.0, .rising⟩ : Quantifier ℝ) := rfl
  obtain ⟨hleast, hgreatest, -⟩ := average_between hearly
  obtain ⟨-, -, hlisted⟩ := average_between (.found hall)
  refine ⟨hearly, hleast _ (by simp), (hgreatest 1 one_pos).mpr (.inr ?_), ?_,
    _, hall, hlisted (.inl ⟨_, hall⟩) _ (by simp)⟩
  · intro k hk
    interval_cases k
    · norm_num [h0, h1]
    · norm_num
  · intro hbelow
    rcases (hgreatest 2 two_pos).mp hbelow with hnone | hsteps
    · norm_num [h0, h1] at hnone
    · have hle := hsteps 1 one_le_two
      rw [one_of_two, hhalf, h1] at hle
      norm_num at hle

/-- **A guided average may exceed all of its values**: the quantifier makes one and a half of 1
and 0. -/
theorem not_average_between :
    ¬ ∀ q : Quantifier ℝ, Obtainable q → ∀ values : List ℝ, values ≠ [] →
      (∃ x ∈ values, x ≤ q.average values) ∧ ∃ x ∈ values, q.average values ≤ x := by
  intro hbetween
  obtain ⟨-, x, hx, hle⟩ := hbetween early (.defined define_early) [1, 0] (by simp)
  rw [average_early] at hle
  rcases List.mem_pair.mp hx with rfl | rfl
  · norm_num at hle
  · norm_num at hle

end Graded.Quantifier
