/-
# Ordered averages and where they lean

An ordered weighted average is an average: with weights that add up to 1, none of them negative, it
lies between the least and the greatest value, does not depend on the order of the values, and
follows each of them.  The last is not obvious, since a value that grows may change places with
others.  But the place of a value in descending order only says how many values reach it
(`le_getElem_iff`), and this number grows with the values.  So the list in descending order grows
place by place (`forall₂_descending`).

Weights say how far an average leans to the smallest or to the greatest values.  What counts is
their partial sums again (`Leaning.reach`): weights that reach more at every place give more
(`weighted_descending_mono`).  Weights that lean to the smallest values reach less than even ones,
and those that lean to the greatest reach more, so that the mean is between them.  They are the
reverse of each other, and so is the order of the complements of the values
(`descending_complements`); each leaning thus averages complements as the other averages values.
-/
import Graded.Proofs.Weighing
import Graded.Averaging

namespace Graded

variable {ws vs xs ys values : List ℝ} {t : ℝ} {n k i : ℕ}

/-! ## 1. Descending order, place by place -/

/-- In descending order a value reaches a height if more values than stand before it do. -/
theorem le_getElem_iff (h : xs.Pairwise (· ≥ ·)) (hk : k < xs.length) :
    t ≤ xs[k] ↔ k < xs.countP (t ≤ ·) := by
  induction xs generalizing k with
  | nil => cases hk
  | cons x xs ih =>
    obtain ⟨hx, hxs⟩ := List.pairwise_cons.mp h
    by_cases ht : t ≤ x
    · rw [List.countP_cons_of_pos (by simpa using ht)]
      cases k with
      | zero => exact iff_of_true ht (Nat.succ_pos _)
      | succ k => exact (ih hxs (Nat.lt_of_succ_lt_succ hk)).trans Nat.succ_lt_succ_iff.symm
    · -- nothing after a value that is too low is higher
      have hlow : ∀ y ∈ x :: xs, ¬ t ≤ y := by
        refine List.forall_mem_cons.mpr ⟨ht, fun y hy hty => ht (hty.trans (hx y hy))⟩
      have hnone : (x :: xs).countP (t ≤ ·) = 0 := by
        rw [List.countP_eq_zero]
        simpa using hlow
      rw [hnone]
      exact iff_of_false (hlow _ (List.getElem_mem hk)) (Nat.not_lt_zero k)

theorem countP_le_of_forall₂ (h : List.Forall₂ (· ≤ ·) xs ys) (t : ℝ) :
    xs.countP (t ≤ ·) ≤ ys.countP (t ≤ ·) := by
  induction h with
  | nil => exact le_rfl
  | @cons x y xs ys hxy _ ih =>
    have hstep : (if t ≤ x then 1 else 0) ≤ if t ≤ y then 1 else 0 := by
      split_ifs with hx hy
      · exact le_rfl
      · exact absurd (hx.trans hxy) hy
      · exact zero_le_one
      · exact le_rfl
    simpa [List.countP_cons] using Nat.add_le_add ih hstep

/-- **Greater values are greater at every place**, wherever they have moved. -/
theorem forall₂_descending (h : List.Forall₂ (· ≤ ·) xs ys) :
    List.Forall₂ (· ≤ ·) (Scalar.descending xs) (Scalar.descending ys) := by
  refine List.forall₂_iff_get.mpr ⟨by simp [h.length_eq], fun k hx hy => ?_⟩
  have hreach := (le_getElem_iff (Scalar.pairwise_descending xs) hx).mp le_rfl
  refine (le_getElem_iff (Scalar.pairwise_descending ys) hy).mpr (hreach.trans_le ?_)
  rw [(Scalar.descending_perm xs).countP_eq, (Scalar.descending_perm ys).countP_eq]
  exact countP_le_of_forall₂ h _

/-- The order of values does not depend on how they were arranged. -/
theorem descending_eq_of_perm (h : xs.Perm ys) : Scalar.descending xs = Scalar.descending ys :=
  List.Perm.eq_of_pairwise (fun _ _ _ _ hab hba => le_antisymm hba hab)
    (Scalar.pairwise_descending xs) (Scalar.pairwise_descending ys)
    ((Scalar.descending_perm xs).trans (h.trans (Scalar.descending_perm ys).symm))

/-- The complements of values are in the opposite order. -/
theorem descending_complements (xs : List ℝ) : Scalar.descending (xs.map (1 - ·)) =
    ((Scalar.descending xs).map (1 - ·)).reverse := by
  have hperm : (xs.map (1 - ·)).Perm ((Scalar.descending xs).map (1 - ·)).reverse :=
    ((Scalar.descending_perm xs).map _).symm.trans (List.reverse_perm _).symm
  have hopposite : ((Scalar.descending xs).map (1 - ·)).reverse.Pairwise (· ≥ ·) := by
    rw [List.pairwise_reverse, List.pairwise_map]
    exact (Scalar.pairwise_descending xs).imp fun hab => sub_le_sub_left hab 1
  rw [descending_eq_of_perm hperm, Scalar.descending_of_pairwise hopposite]

/-! ## 2. Weighted sums -/

theorem weighted_mono (hws : ∀ w ∈ ws, 0 ≤ w) (h : List.Forall₂ (· ≤ ·) xs ys) :
    weighted ws xs ≤ weighted ws ys := by
  induction h generalizing ws with
  | nil => exact le_rfl
  | cons hxy _ ih =>
    cases ws with
    | nil => exact le_rfl
    | cons w ws =>
      obtain ⟨hw, hws⟩ := List.forall_mem_cons.mp hws
      rw [weighted_cons, weighted_cons]
      exact add_le_add (mul_le_mul_of_nonneg_left hxy hw) (ih hws)

theorem weighted_reverse (h : ws.length = xs.length) :
    weighted ws.reverse xs.reverse = weighted ws xs := by
  rw [weighted, ← List.reverse_zipWith h, List.sum_reverse, weighted]

theorem weighted_sub (hws : ws.length = xs.length) (hvs : vs.length = xs.length) :
    weighted (List.zipWith (· - ·) ws vs) xs = weighted ws xs - weighted vs xs := by
  induction xs generalizing ws vs with
  | nil =>
    rw [List.eq_nil_of_length_eq_zero hws, List.eq_nil_of_length_eq_zero hvs]
    simp
  | cons x xs ih =>
    obtain ⟨w, ws, rfl⟩ := List.exists_cons_of_length_eq_add_one hws
    obtain ⟨v, vs, rfl⟩ := List.exists_cons_of_length_eq_add_one hvs
    rw [List.zipWith_cons_cons, weighted_cons, weighted_cons, weighted_cons,
      ih (Nat.succ.inj hws) (Nat.succ.inj hvs)]
    ring

theorem weighted_complements (h : ws.length = xs.length) :
    weighted ws (xs.map (1 - ·)) = ws.sum - weighted ws xs := by
  induction xs generalizing ws with
  | nil => simp [List.eq_nil_of_length_eq_zero h]
  | cons x xs ih =>
    obtain ⟨w, ws, rfl⟩ := List.exists_cons_of_length_eq_add_one h
    rw [List.map_cons, weighted_cons, weighted_cons, List.sum_cons, ih (Nat.succ.inj h)]
    ring

theorem sum_zipWith_sub (h : ws.length = vs.length) :
    (List.zipWith (· - ·) ws vs).sum = ws.sum - vs.sum := by
  induction ws generalizing vs with
  | nil =>
    rw [List.eq_nil_of_length_eq_zero h.symm]
    simp
  | cons w ws ih =>
    obtain ⟨v, vs, rfl⟩ := List.exists_cons_of_length_eq_add_one h.symm
    rw [List.zipWith_cons_cons, List.sum_cons, List.sum_cons, List.sum_cons, ih (Nat.succ.inj h)]
    ring

/-- **Weights that reach more at every place give more**, if they add up to the same. -/
theorem weighted_descending_mono (hws : ws.length = values.length)
    (hvs : vs.length = values.length) (htotal : vs.sum = ws.sum)
    (hreach : ∀ k, (vs.take k).sum ≤ (ws.take k).sum) (hne : values ≠ []) :
    weighted vs (Scalar.descending values) ≤ weighted ws (Scalar.descending values) := by
  obtain ⟨l, hl, m, hm, hbounds⟩ := exists_bounds hne
  -- what the one reaches more than the other is never negative, and nothing on the whole
  have hpartial : ∀ k, 0 ≤ 0 + ((List.zipWith (· - ·) ws vs).take k).sum := by
    intro k
    rw [zero_add, List.take_zipWith, sum_zipWith_sub (by simp [hws, hvs])]
    exact sub_nonneg.mpr (hreach k)
  have hlength : values.length = (List.zipWith (· - ·) ws vs).length := by simp [hws, hvs]
  have hle := mul_le_weighted_descending hlength hpartial
    (fun x hx => (hbounds x hx).1) (fun x hx => (hbounds x hx).2) (hbounds l hl).2
  rw [sum_zipWith_sub (hws.trans hvs.symm), htotal, sub_self, zero_add, zero_mul, zero_mul,
    zero_add, weighted_sub (by simpa using hws) (by simpa using hvs)] at hle
  exact sub_nonneg.mp hle

/-! ## 3. Leanings -/

namespace Leaning

/-- How much of the weight is on the `k` greatest of `n` values. -/
noncomputable def reach (n k : ℕ) : Leaning → ℝ
  | andlike => k * (k + 1) / (n * (n + 1))
  | orlike => k * (n + n + 1 - k) / (n * (n + 1))
  | even => k / n

theorem weight_nonneg (l : Leaning) (h : i < n) : (0 : ℝ) ≤ l.weight n i := by
  have hi : (i : ℝ) ≤ n := Nat.cast_le.mpr h.le
  cases l with
  | andlike => exact div_nonneg (by positivity) (Nat.cast_nonneg _)
  | orlike =>
    refine div_nonneg (mul_nonneg (by norm_num) (sub_nonneg.mpr hi)) (Nat.cast_nonneg _)
  | even => exact div_nonneg zero_le_one (Nat.cast_nonneg _)

/-- **The weight of a place is what it adds to the reach.** -/
theorem reach_succ (l : Leaning) (hn : 0 < n) (k : ℕ) :
    l.reach n (k + 1) = l.reach n k + l.weight n k := by
  have hne : (n : ℝ) ≠ 0 := Nat.cast_ne_zero.mpr hn.ne'
  have hne' : (n : ℝ) + 1 ≠ 0 := by positivity
  cases l with
  | andlike =>
    simp only [reach, weight, Scalar.two_eq]
    push_cast
    field_simp
    ring
  | orlike =>
    simp only [reach, weight, Scalar.two_eq]
    push_cast
    field_simp
    ring
  | even =>
    simp only [reach, weight]
    push_cast
    field_simp

/-- **The partial sums of the weights** are what they reach. -/
theorem sum_take_weights (l : Leaning) (hn : 0 < n) (hk : k ≤ n) :
    ((l.weights n : List ℝ).take k).sum = l.reach n k := by
  rw [weights, ← List.map_take, List.take_range, min_eq_left hk]
  clear hk
  induction k with
  | zero => cases l <;> simp [reach]
  | succ k ih =>
    rw [List.range_succ, List.map_append, List.sum_append, ih, reach_succ l hn]
    simp

theorem reach_self (l : Leaning) (hn : 0 < n) : l.reach n n = 1 := by
  have hne : (n : ℝ) ≠ 0 := Nat.cast_ne_zero.mpr hn.ne'
  have hne' : (n : ℝ) + 1 ≠ 0 := by positivity
  cases l with
  | andlike => exact div_self (mul_ne_zero hne hne')
  | orlike =>
    have hlast : (n + n + 1 - n : ℝ) = n + 1 := by ring
    rw [reach, hlast]
    exact div_self (mul_ne_zero hne hne')
  | even => exact div_self hne

theorem sum_weights (l : Leaning) (hn : 0 < n) : (l.weights n : List ℝ).sum = 1 := by
  have hall := sum_take_weights l hn le_rfl
  rwa [List.take_of_length_le (length_weights n l).le, reach_self l hn] at hall

/-- To lean to the smallest values is to reach less than even weights do. -/
theorem reach_andlike_le (hn : 0 < n) (hk : k ≤ n) : andlike.reach n k ≤ even.reach n k := by
  have hpos : (0 : ℝ) < n := Nat.cast_pos.mpr hn
  have hle : (k : ℝ) ≤ n := Nat.cast_le.mpr hk
  rw [reach, reach, div_le_div_iff₀ (by positivity) hpos]
  have hstep : (k : ℝ) * n * (k + 1) ≤ k * n * (n + 1) :=
    mul_le_mul_of_nonneg_left (by linarith) (by positivity)
  linarith

/-- To lean to the greatest values is to reach more. -/
theorem le_reach_orlike (hn : 0 < n) (hk : k ≤ n) : even.reach n k ≤ orlike.reach n k := by
  have hpos : (0 : ℝ) < n := Nat.cast_pos.mpr hn
  have hle : (k : ℝ) ≤ n := Nat.cast_le.mpr hk
  rw [reach, reach, div_le_div_iff₀ hpos (by positivity)]
  have hstep : (k : ℝ) * n * (n + 1) ≤ k * n * (n + n + 1 - k) :=
    mul_le_mul_of_nonneg_left (by linarith) (by positivity)
  linarith

/-- What holds of the reach of two leanings at every place holds of their partial sums. -/
theorem sum_take_le {l l' : Leaning} (hn : 0 < n) (h : ∀ k ≤ n, l.reach n k ≤ l'.reach n k)
    (k : ℕ) : ((l.weights n : List ℝ).take k).sum ≤ ((l'.weights n).take k).sum := by
  rcases le_total k n with hk | hk
  · rw [sum_take_weights l hn hk, sum_take_weights l' hn hk]
    exact h k hk
  · rw [List.take_of_length_le (by simpa using hk), List.take_of_length_le (by simpa using hk),
      sum_weights l hn, sum_weights l' hn]

/-- **The two leanings are the reverse of each other.** -/
theorem reverse_weights_orlike (n : ℕ) :
    (orlike.weights n : List ℝ).reverse = andlike.weights n := by
  refine List.ext_getElem (by simp) fun i hi _ => ?_
  have hin : i + 1 ≤ n := by simpa using hi
  have hplace : ((n - 1 - i : ℕ) : ℝ) = n - (i + 1) := by
    rw [Nat.sub_sub, add_comm 1 i, Nat.cast_sub hin]
    push_cast
    ring
  simp [weights, weight, hplace]

end Leaning

/-! ## 4. Averages -/

/-- Weights for `n` values: as many as there are values, none of them negative, and 1 on the
whole. -/
structure Weighting (n : ℕ) (ws : List ℝ) : Prop where
  length_eq : ws.length = n
  nonneg : ∀ w ∈ ws, 0 ≤ w
  sum_eq : ws.sum = 1

theorem Leaning.weighting (l : Leaning) (hn : 0 < n) : Weighting n (l.weights n) := by
  refine ⟨length_weights n l, ?_, sum_weights l hn⟩
  intro w hw
  obtain ⟨i, hi, rfl⟩ := List.mem_map.mp hw
  exact weight_nonneg l (List.mem_range.mp hi)

theorem orderedAverage_eq (h : ws.length = values.length) :
    orderedAverage values (some ws) = weighted ws (Scalar.descending values) := by
  cases values with
  | nil => simp [orderedAverage, List.eq_nil_of_length_eq_zero h]
  | cons x values => simp [orderedAverage, h, Scalar.total_eq_sum, weighted]

/-- Weights are between nothing and all, up to any place. -/
theorem Weighting.sum_take_mem (h : Weighting n ws) (k : ℕ) : (ws.take k).sum ∈ unitInterval := by
  have hrest : 0 ≤ (ws.drop k).sum :=
    List.sum_nonneg fun w hw => h.nonneg w (List.mem_of_mem_drop hw)
  refine ⟨List.sum_nonneg fun w hw => h.nonneg w (List.mem_of_mem_take hw), ?_⟩
  rw [← h.sum_eq, ← List.sum_take_add_sum_drop ws k]
  exact le_add_of_nonneg_right hrest

/-- **An ordered average lies between the least and the greatest value.** -/
theorem Weighting.orderedAverage_mem (h : Weighting values.length ws) (hne : values ≠ []) :
    ∃ l ∈ values, ∃ m ∈ values, (∀ x ∈ values, l ≤ x ∧ x ≤ m) ∧
      orderedAverage values (some ws) ∈ Set.Icc l m := by
  obtain ⟨l, hl, m, hm, hbounds⟩ := exists_bounds hne
  obtain ⟨x, hx, hle⟩ := (least_iff h.sum_eq).mpr (fun k => (h.sum_take_mem k).1) values
    h.length_eq.symm
  obtain ⟨y, hy, hge⟩ := (greatest_iff h.sum_eq).mpr (fun k => (h.sum_take_mem k).2) values
    h.length_eq.symm
  refine ⟨l, hl, m, hm, hbounds, ?_⟩
  rw [orderedAverage_eq h.length_eq]
  exact ⟨(hbounds x hx).1.trans hle, hge.trans (hbounds y hy).2⟩

/-- **Even weights make the mean.** -/
theorem orderedAverage_even (values : List ℝ) :
    orderedAverage values (some (Leaning.even.weights values.length)) =
      values.sum / values.length := by
  have heven : (Leaning.even.weights values.length : List ℝ) =
      (Scalar.descending values).map fun _ => (1 / values.length : ℝ) := by
    rw [List.map_const', Scalar.length_descending, Leaning.weights]
    simp only [Leaning.weight]
    rw [List.map_const', List.length_range]
  rw [orderedAverage_eq (Leaning.length_weights _ _), heven, weighted, List.zipWith_map_left,
    List.zipWith_self, Scalar.sum_scaled, (Scalar.descending_perm values).sum_eq,
    one_div_mul_eq_div]

/-- An ordered average does not depend on the order of the values. -/
theorem orderedAverage_perm {others : List ℝ} (hlength : ws.length = values.length)
    (h : values.Perm others) :
    orderedAverage others (some ws) = orderedAverage values (some ws) := by
  rw [orderedAverage_eq hlength, orderedAverage_eq (hlength.trans h.length_eq),
    descending_eq_of_perm h]

/-- **An ordered average follows each of the values.** -/
theorem Weighting.orderedAverage_mono {greater : List ℝ} (h : Weighting values.length ws)
    (hgreater : List.Forall₂ (· ≤ ·) values greater) :
    orderedAverage values (some ws) ≤ orderedAverage greater (some ws) := by
  rw [orderedAverage_eq h.length_eq,
    orderedAverage_eq (h.length_eq.trans hgreater.length_eq)]
  exact weighted_mono h.nonneg (forall₂_descending hgreater)

/-- A leaning that reaches more gives more. -/
theorem orderedAverage_le_of_reach (hne : values ≠ []) {l l' : Leaning}
    (h : ∀ k ≤ values.length, l.reach values.length k ≤ l'.reach values.length k) :
    orderedAverage values (some (l.weights values.length)) ≤
      orderedAverage values (some (l'.weights values.length)) := by
  have hn : 0 < values.length := List.length_pos_iff.mpr hne
  have hlength : ∀ l : Leaning, (l.weights values.length : List ℝ).length = values.length :=
    Leaning.length_weights values.length
  rw [orderedAverage_eq (hlength l), orderedAverage_eq (hlength l')]
  exact weighted_descending_mono (hlength l') (hlength l)
    ((l.sum_weights hn).trans (l'.sum_weights hn).symm) (Leaning.sum_take_le hn h) hne

theorem orderedAverage_andlike_le (hne : values ≠ []) :
    orderedAverage values (some (Leaning.andlike.weights values.length)) ≤
      values.sum / values.length := by
  have hn : 0 < values.length := List.length_pos_iff.mpr hne
  rw [← orderedAverage_even values]
  exact orderedAverage_le_of_reach hne fun k hk => Leaning.reach_andlike_le hn hk

theorem le_orderedAverage_orlike (hne : values ≠ []) :
    values.sum / values.length ≤
      orderedAverage values (some (Leaning.orlike.weights values.length)) := by
  have hn : 0 < values.length := List.length_pos_iff.mpr hne
  rw [← orderedAverage_even values]
  exact orderedAverage_le_of_reach hne fun k hk => Leaning.le_reach_orlike hn hk

/-- **The leanings trade places on the complements.** -/
theorem orderedAverage_complements (hne : values ≠ []) :
    orderedAverage (values.map (1 - ·)) (some (Leaning.andlike.weights values.length)) =
      1 - orderedAverage values (some (Leaning.orlike.weights values.length)) := by
  have hn : 0 < values.length := List.length_pos_iff.mpr hne
  have hcomplements : (Leaning.orlike.weights values.length : List ℝ).length =
      ((Scalar.descending values).map (1 - ·)).length := by simp
  rw [orderedAverage_eq (by simp), orderedAverage_eq (by simp), descending_complements,
    ← Leaning.reverse_weights_orlike, weighted_reverse hcomplements,
    weighted_complements (by simp), Leaning.sum_weights _ hn]

/-- **An ordered average is an average.**  For any weights it lies between the least and the
greatest value, does not depend on the order of the values, and does not shrink when some of them
grow.  The leanings give weights, those to the smallest and to the greatest values have the mean
between them, and they trade places on the complements of the values. -/
theorem orderedAverage_lawful (hne : values ≠ []) :
    (∀ ws, Weighting values.length ws →
      (∃ l ∈ values, ∃ m ∈ values, (∀ x ∈ values, l ≤ x ∧ x ≤ m) ∧
        orderedAverage values (some ws) ∈ Set.Icc l m) ∧
      (∀ others, values.Perm others →
        orderedAverage others (some ws) = orderedAverage values (some ws)) ∧
      ∀ greater, List.Forall₂ (· ≤ ·) values greater →
        orderedAverage values (some ws) ≤ orderedAverage greater (some ws)) ∧
    (∀ n name, 0 < n → Weighting n ((Leaning.ofName name).weights n)) ∧
    orderedAverage values (some ((Leaning.ofName "andlike").weights values.length)) ≤
      values.sum / values.length ∧
    values.sum / values.length ≤
      orderedAverage values (some ((Leaning.ofName "orlike").weights values.length)) ∧
    orderedAverage (values.map (1 - ·))
        (some ((Leaning.ofName "andlike").weights values.length)) =
      1 - orderedAverage values (some ((Leaning.ofName "orlike").weights values.length)) := by
  rw [Leaning.ofName_andlike, Leaning.ofName_orlike]
  refine ⟨fun ws h => ⟨h.orderedAverage_mem hne, ?_, ?_⟩, fun n name hn => Leaning.weighting _ hn,
    orderedAverage_andlike_le hne, le_orderedAverage_orlike hne, orderedAverage_complements hne⟩
  · intro others hperm
    exact orderedAverage_perm h.length_eq hperm
  · intro greater hgreater
    exact h.orderedAverage_mono hgreater

/-- Three values under weights that lean to the smallest, one of which grows past the others. -/
theorem orderedAverage_lawful_three :
    ([0.2, 0.8, 0.5] : List ℝ) ≠ [] ∧
      Weighting 3 ((Leaning.ofName "andlike").weights 3) ∧
      List.Forall₂ (· ≤ ·) [0.2, 0.8, 0.5] [(0.9 : ℝ), 0.8, 0.5] ∧
      orderedAverage [0.2, 0.8, 0.5] (some ((Leaning.ofName "andlike").weights 3)) ≤
        orderedAverage [(0.9 : ℝ), 0.8, 0.5] (some ((Leaning.ofName "andlike").weights 3)) ∧
      orderedAverage [0.2, 0.8, 0.5] (some ((Leaning.ofName "andlike").weights 3)) ≤ (0.5 : ℝ) ∧
      orderedAverage [1 - 0.2, 1 - 0.8, 1 - 0.5]
          (some ((Leaning.ofName "andlike").weights 3)) =
        1 - orderedAverage [(0.2 : ℝ), 0.8, 0.5]
          (some ((Leaning.ofName "orlike").weights 3)) := by
  have hne : ([0.2, 0.8, 0.5] : List ℝ) ≠ [] := List.cons_ne_nil _ _
  obtain ⟨haverage, hweights, hbelow, -, hdual⟩ := orderedAverage_lawful hne
  have hthree : Weighting 3 ((Leaning.ofName "andlike").weights 3) :=
    hweights 3 "andlike" (by decide)
  have hgrown : List.Forall₂ (· ≤ ·) [0.2, 0.8, 0.5] [(0.9 : ℝ), 0.8, 0.5] := by norm_num
  obtain ⟨-, -, hgrows⟩ := haverage ((Leaning.ofName "andlike").weights 3) hthree
  have hmean : ([0.2, 0.8, 0.5] : List ℝ).sum / ([0.2, 0.8, 0.5] : List ℝ).length = 0.5 := by
    norm_num
  rw [hmean] at hbelow
  exact ⟨hne, hthree, hgrown, hgrows _ hgrown, hbelow, hdual⟩

end Graded
