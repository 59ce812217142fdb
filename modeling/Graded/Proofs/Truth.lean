/-
# Three ways to the truth of a summary

The truth of a plain summary is read off a mean, that of a qualified one off a quotient of two sums
(`share`), and that of a compound one off the mean of a row that several rows were folded into.
Where two of them are about the same thing they agree, for every quantifier (`Truth.consistent`).

* A qualifier that every element meets altogether does not qualify (`share_ones`), and one that
  asks for no more than the summarizer leaves nothing out (`share_of_le`).
* A compound row is known by its columns: an element of it is a fold over the degrees that the rows
  have there (`column`, `pointwise_eq`).  So the order of the rows is the order of each column, which
  a fold by the minimum or the maximum does not see, and the order of the elements is the order of a
  sum.
* A proportion is a degree, so a quantifier needs to be monotone on the degrees only for its truth
  values to be in the order of the rows.

Rows of different lengths have no columns in common, and are refused wherever lists of degrees meet.
-/
import Graded.Proofs.Norm
import Graded.Proofs.Shape
import Graded.Summary

namespace Graded

/-! ## 1. Proportions -/

variable {xs ys w r : List ℝ}

/-- Every element of the list is a degree. -/
def AreDegrees (xs : List ℝ) : Prop := ∀ x ∈ xs, x ∈ unitInterval

/-- The proportion is the mean; without degrees both are 0. -/
theorem proportion_eq (xs : List ℝ) : proportion xs = xs.sum / xs.length := by
  unfold proportion
  split_ifs with h
  · simp [List.isEmpty_iff.mp h]
  · exact Scalar.mean_eq xs

theorem proportion_mem (h : AreDegrees xs) : proportion xs ∈ unitInterval := by
  have hsum : xs.sum ≤ xs.length := by
    simpa using List.sum_le_card_nsmul xs 1 fun x hx => (h x hx).2
  rw [proportion_eq]
  exact ⟨div_nonneg (List.sum_nonneg fun x hx => (h x hx).1) xs.length.cast_nonneg,
    div_le_one_of_le₀ hsum xs.length.cast_nonneg⟩

theorem proportion_mono (h : List.Forall₂ (· ≤ ·) xs ys) : proportion xs ≤ proportion ys := by
  rw [proportion_eq, proportion_eq, h.length_eq]
  exact div_le_div_of_nonneg_right h.sum_le_sum ys.length.cast_nonneg

/-- What counts of the elements that qualify: as far as they qualify, the share that is also so. -/
noncomputable def share (qualifier summarizer : List ℝ) : ℝ :=
  (List.zipWith min qualifier summarizer).sum / qualifier.sum

theorem zipWith_min_le (h : w.length = r.length) :
    List.Forall₂ (· ≤ ·) (List.zipWith min w r) w := by
  induction w generalizing r with
  | nil => exact .nil
  | cons x w ih =>
    cases r with
    | nil => simp at h
    | cons y r => exact .cons (min_le_left x y) (ih (Nat.succ.inj h))

theorem zipWith_min_nonneg (hw : AreDegrees w) (hr : AreDegrees r) :
    ∀ x ∈ List.zipWith min w r, 0 ≤ x := by
  intro x hx
  rw [← List.map_uncurry_zip_eq_zipWith] at hx
  obtain ⟨⟨a, b⟩, hab, rfl⟩ := List.mem_map.mp hx
  obtain ⟨ha, hb⟩ := List.of_mem_zip hab
  exact le_min (hw a ha).1 (hr b hb).1

/-- **The share of qualified elements is a proportion.** -/
theorem share_mem (hw : AreDegrees w) (hr : AreDegrees r) (h : w.length = r.length) :
    share w r ∈ unitInterval := by
  have hnonneg : 0 ≤ w.sum := List.sum_nonneg fun x hx => (hw x hx).1
  exact ⟨div_nonneg (List.sum_nonneg (zipWith_min_nonneg hw hr)) hnonneg,
    div_le_one_of_le₀ (zipWith_min_le h).sum_le_sum hnonneg⟩

theorem zipWith_min_of_le (h : List.Forall₂ (· ≤ ·) w r) : List.zipWith min w r = w := by
  induction h with
  | nil => rfl
  | cons hxy _ ih => rw [List.zipWith_cons_cons, min_eq_left hxy, ih]

/-- Nothing is left out if the qualifier asks for no more than the summarizer. -/
theorem share_of_le (h : List.Forall₂ (· ≤ ·) w r) (hw : w.sum ≠ 0) : share w r = 1 := by
  rw [share, zipWith_min_of_le h, div_self hw]

/-- A row that starts out neutral becomes the row that it is joined with. -/
theorem zipWith_neutral {f : ℝ → ℝ → ℝ} {start : ℝ} (h : ∀ x ∈ r, f start x = x) :
    List.zipWith f (r.map fun _ => start) r = r := by
  rw [List.zipWith_map_left, List.zipWith_self, List.map_congr_left h, List.map_id']

/-- A qualifier that everything meets leaves the proportion as it is. -/
theorem share_ones (hr : AreDegrees r) : share (r.map fun _ => 1) r = proportion r := by
  rw [share, zipWith_neutral fun x hx => min_eq_right (hr x hx).2, proportion_eq]
  simp

/-! ## 2. Rows and columns -/

/-- The degrees that the rows have at one place. -/
def column (rows : List (List ℝ)) (i : ℕ) : List ℝ := rows.map fun row => row.getD i 0

/-- All rows have the same length. -/
def OfLength (n : ℕ) (rows : List (List ℝ)) : Prop := ∀ row ∈ rows, row.length = n

/-- A list is known by its places. -/
theorem range_map_getD {β : Type} {n : ℕ} {l : List β} (h : l.length = n) (d : β) :
    ((List.range n).map fun i => l.getD i d) = l := by
  subst h
  refine List.ext_getElem (by simp) fun i hi hi' => ?_
  simp [List.getElem?_eq_getElem hi']

/-- Folding rows is folding columns. -/
theorem foldl_zipWith (f : ℝ → ℝ → ℝ) {n : ℕ} {rows : List (List ℝ)} (h : OfLength n rows)
    (start : ℕ → ℝ) :
    rows.foldl (List.zipWith f) ((List.range n).map start) =
      (List.range n).map fun i => (column rows i).foldl f (start i) := by
  induction rows generalizing start with
  | nil => rfl
  | cons row rows ih =>
    have hstep : List.zipWith f ((List.range n).map start) row =
        (List.range n).map fun i => f (start i) (row.getD i 0) := by
      conv_lhs => rw [← range_map_getD (h row List.mem_cons_self) 0]
      rw [List.zipWith_map, List.zipWith_self]
    rw [List.foldl_cons, hstep, ih fun other hother => h other (List.mem_cons_of_mem _ hother)]
    rfl

namespace Truth

variable {f : ℝ → ℝ → ℝ} {start : ℝ} {n : ℕ} {rows rows' : List (List ℝ)}

/-- **A compound row is made of folded columns.** -/
theorem pointwise_eq (hne : rows ≠ []) (h : OfLength n rows) :
    pointwise f start rows = .ok ((List.range n).map fun i => (column rows i).foldl f start) := by
  cases rows with
  | nil => exact absurd rfl hne
  | cons row rest =>
    have hrow : row.length = n := h row List.mem_cons_self
    have hany : ((row :: rest).any fun other => other.length != row.length) = false := by
      rw [List.any_eq_false]
      intro other hother
      simp [h other hother, hrow]
    have hstart : (row.map fun _ => start) = (List.range n).map fun _ => start := by
      simp [hrow]
    rw [pointwise, hany, hstart, foldl_zipWith f h]
    rfl

/-- A single row is not changed. -/
theorem pointwise_single (h : ∀ x ∈ r, f start x = x) : pointwise f start [r] = .ok r := by
  simp only [pointwise, List.any_cons, bne_self_eq_false, List.any_nil, Bool.or_self,
    Bool.false_eq_true, if_false, List.foldl_cons, List.foldl_nil, zipWith_neutral h]

/-- Rows of different lengths have no columns. -/
theorem pointwise_of_unequal (h : ∃ row ∈ rows, ∃ row' ∈ rows, row.length ≠ row'.length) :
    pointwise f start rows = .error .unequalMemberships := by
  obtain ⟨row, hrow, row', hrow', hne⟩ := h
  cases rows with
  | nil => simp at hrow
  | cons first rest =>
    have hany : ((first :: rest).any fun other => other.length != first.length) = true := by
      rw [List.any_eq_true]
      by_cases hfirst : row.length = first.length
      · exact ⟨row', hrow', by simpa [← hfirst] using fun heq => hne heq.symm⟩
      · exact ⟨row, hrow, by simpa using hfirst⟩
    rw [pointwise, hany]
    rfl

/-- Either all rows have one length or two of them differ. -/
theorem ofLength_or (rows : List (List ℝ)) :
    (∃ n, OfLength n rows) ∨ ∃ row ∈ rows, ∃ row' ∈ rows, row.length ≠ row'.length := by
  by_cases h : ∃ row ∈ rows, ∃ row' ∈ rows, row.length ≠ row'.length
  · exact .inr h
  · push Not at h
    cases rows with
    | nil => exact .inl ⟨0, by simp [OfLength]⟩
    | cons first rest =>
      exact .inl ⟨first.length, fun row hrow => h row hrow first List.mem_cons_self⟩

/-- What a compound row comes to does not depend on the order of its rows, if the steps of the fold
commute. -/
theorem pointwise_perm (hf : ∀ z x y, f (f z x) y = f (f z y) x) (h : rows.Perm rows') :
    pointwise f start rows = pointwise f start rows' := by
  rcases ofLength_or rows with ⟨n, hn⟩ | ⟨row, hrow, row', hrow', hne⟩
  · by_cases hnil : rows = []
    · subst hnil
      rw [h.nil_eq]
    · have hn' : OfLength n rows' := fun row hrow => hn row (h.mem_iff.mpr hrow)
      have hnil' : rows' ≠ [] := fun hnil' => hnil (hnil' ▸ h).eq_nil
      have hcolumn : ∀ i, (column rows i).foldl f start = (column rows' i).foldl f start := fun i =>
        (h.map _).foldl_eq' (fun x _ y _ z => hf z x y) start
      rw [pointwise_eq hnil hn, pointwise_eq hnil' hn']
      simp only [hcolumn]
  · rw [pointwise_of_unequal ⟨row, hrow, row', hrow', hne⟩,
      pointwise_of_unequal ⟨row, h.mem_iff.mp hrow, row', h.mem_iff.mp hrow', hne⟩]

/-- The elements of a row in the order that a list of places gives. -/
def reordered (order : List ℕ) (row : List ℝ) : List ℝ := order.map fun i => row.getD i 0

/-- Elements that change places in all rows do so in the compound row. -/
theorem pointwise_reordered (f : ℝ → ℝ → ℝ) (start : ℝ) {order : List ℕ}
    (horder : order.Perm (List.range n)) (h : OfLength n rows) :
    ∃ xs ys, pointwise f start (rows.map (reordered order)) = .ok xs ∧
      pointwise f start rows = .ok ys ∧ xs.Perm ys := by
  by_cases hnil : rows = []
  · subst hnil
    exact ⟨[], [], rfl, rfl, .refl _⟩
  · have hlength : order.length = n := by rw [horder.length_eq, List.length_range]
    have h' : OfLength n (rows.map (reordered order)) := by
      intro row hrow
      obtain ⟨row, -, rfl⟩ := List.mem_map.mp hrow
      rw [reordered, List.length_map, hlength]
    have hcolumn : ∀ i ∈ List.range n,
        column (rows.map (reordered order)) i = column rows (order.getD i 0) := by
      intro i hi
      have hi : i < order.length := hlength ▸ List.mem_range.mp hi
      simp [column, reordered, Function.comp_def, List.getElem?_eq_getElem hi]
    refine ⟨_, _, pointwise_eq (by simpa using hnil) h', pointwise_eq hnil h, ?_⟩
    rw [List.map_congr_left fun i hi => by rw [hcolumn i hi]]
    have hplaces := congrArg (List.map fun i => (column rows i).foldl f start)
      (range_map_getD hlength 0)
    rw [List.map_map] at hplaces
    exact (List.Perm.of_eq hplaces).trans (horder.map _)

/-! ## 3. Compound rows between their rows -/

variable {row : List ℝ}

theorem column_mem (h : ∀ row ∈ rows, AreDegrees row) (i : ℕ) : AreDegrees (column rows i) := by
  intro x hx
  obtain ⟨row, hrow, rfl⟩ := List.mem_map.mp hx
  by_cases hi : i < row.length
  · rw [List.getD_eq_getElem _ _ hi]
    exact h row hrow _ (List.getElem_mem hi)
  · rw [List.getD_eq_default _ _ (not_lt.mp hi)]
    exact unitInterval.zero_mem

/-- Two rows are in order if they are place by place. -/
theorem forall₂_of_places {a b : ℕ → ℝ} (h : ∀ i, a i ≤ b i) (l : List ℕ) :
    List.Forall₂ (· ≤ ·) (l.map a) (l.map b) := by
  rw [List.forall₂_map_left_iff, List.forall₂_map_right_iff, List.forall₂_same]
  exact fun i _ => h i

/-- The least of the rows, place by place, is a row of degrees below each of them. -/
theorem pointwise_min_le (hn : OfLength n rows) (h : ∀ row ∈ rows, AreDegrees row)
    (hrow : row ∈ rows) : ∃ xs, pointwise min 1 rows = .ok xs ∧ AreDegrees xs ∧
      List.Forall₂ (· ≤ ·) xs row := by
  have hle := fun i => le_foldl_min_iff.mp (le_refl ((column rows i).foldl min 1))
  refine ⟨_, pointwise_eq (List.ne_nil_of_mem hrow) hn, ?_, ?_⟩
  · intro x hx
    obtain ⟨i, -, rfl⟩ := List.mem_map.mp hx
    exact ⟨le_foldl_min_iff.mpr ⟨zero_le_one, fun y hy => (column_mem h i y hy).1⟩, (hle i).1⟩
  · conv_rhs => rw [← range_map_getD (hn row hrow) 0]
    exact forall₂_of_places (fun i => (hle i).2 _ (List.mem_map_of_mem hrow)) _

/-- The greatest of the rows, place by place, is a row of degrees above each of them. -/
theorem le_pointwise_max (hn : OfLength n rows) (h : ∀ row ∈ rows, AreDegrees row)
    (hrow : row ∈ rows) : ∃ xs, pointwise max 0 rows = .ok xs ∧ AreDegrees xs ∧
      List.Forall₂ (· ≤ ·) row xs := by
  have hle := fun i => foldl_max_le_iff.mp (le_refl ((column rows i).foldl max 0))
  refine ⟨_, pointwise_eq (List.ne_nil_of_mem hrow) hn, ?_, ?_⟩
  · intro x hx
    obtain ⟨i, -, rfl⟩ := List.mem_map.mp hx
    exact ⟨(hle i).1, foldl_max_le_iff.mpr ⟨zero_le_one, fun y hy => (column_mem h i y hy).2⟩⟩
  · conv_lhs => rw [← range_map_getD (hn row hrow) 0]
    exact forall₂_of_places (fun i => (hle i).2 _ (List.mem_map_of_mem hrow)) _

/-! ## 4. Truth values -/

variable {q : Quantifier ℝ}

theorem simple_nil (q : Quantifier ℝ) : simple q [] = 0 := rfl

theorem simple_of_ne_nil (h : xs ≠ []) : simple q xs = q.degree (proportion xs) := by
  rw [simple, if_neg (by simpa using h)]

theorem simple_perm (h : xs.Perm ys) : simple q xs = simple q ys := by
  rw [simple, simple, proportion_eq, proportion_eq, h.isEmpty_eq, h.sum_eq, h.length_eq]

/-- A quantifier that grows on the degrees keeps rows of degrees in order. -/
theorem simple_mono (hq : MonotoneOn q.degree unitInterval) (hx : AreDegrees xs)
    (hy : AreDegrees ys) (h : List.Forall₂ (· ≤ ·) xs ys) : simple q xs ≤ simple q ys := by
  cases h with
  | nil => exact le_rfl
  | cons hxy h =>
    rw [simple_of_ne_nil (List.cons_ne_nil _ _), simple_of_ne_nil (List.cons_ne_nil _ _)]
    exact hq (proportion_mem hx) (proportion_mem hy) (proportion_mono (.cons hxy h))

/-- One that falls turns them round. -/
theorem simple_anti (hq : AntitoneOn q.degree unitInterval) (hx : AreDegrees xs)
    (hy : AreDegrees ys) (h : List.Forall₂ (· ≤ ·) xs ys) : simple q ys ≤ simple q xs := by
  cases h with
  | nil => exact le_rfl
  | cons hxy h =>
    rw [simple_of_ne_nil (List.cons_ne_nil _ _), simple_of_ne_nil (List.cons_ne_nil _ _)]
    exact hq (proportion_mem hx) (proportion_mem hy) (proportion_mono (.cons hxy h))

/-- **A qualified truth is read off the share**, unless no element qualifies at all. -/
theorem qualified_eq (q : Quantifier ℝ) (h : w.length = r.length) :
    qualified q w r = .ok (if w.sum = 0 then 0 else q.degree (share w r)) := by
  have hlesser : (Scalar.lesser : ℝ → ℝ → ℝ) = min := funext₂ Scalar.lesser_eq_min
  rw [qualified, if_neg (not_not.mpr h), Scalar.total_eq_sum, Scalar.total_eq_sum, hlesser]
  by_cases hnil : w = []
  · simp [hnil]
  · by_cases hsum : w.sum = 0
    · simp [hnil, hsum]
    · simp [hnil, hsum, share]

theorem conjunctive_eq (q : Quantifier ℝ) (rows : List (List ℝ)) :
    conjunctive q rows = (pointwise min 1 rows).map (simple q) := by
  have hmin : (TNorm.minimum : TNorm ℝ).value = min := funext₂ Scalar.least_eq_min
  rw [conjunctive, hmin]

theorem disjunctive_eq (q : Quantifier ℝ) (rows : List (List ℝ)) :
    disjunctive q rows = (pointwise max 0 rows).map (simple q) := by
  have hmax : (TConorm.maximum.value : ℝ → ℝ → ℝ) = max := funext₂ Scalar.greatest_eq_max
  rw [disjunctive, hmax]

/-! ## 5. Where two of them meet -/

/-- The ways to a truth value agree under a quantifier, and refuse the same. -/
structure Consistent (q : Quantifier ℝ) : Prop where
  /-- a qualifier that everything meets does not qualify -/
  ones : ∀ r, AreDegrees r → qualified q (r.map fun _ => 1) r = .ok (simple q r)
  /-- a qualifier that asks for no more than the summarizer leaves all of it -/
  weaker : ∀ w r, AreDegrees w → List.Forall₂ (· ≤ ·) w r → (∃ x ∈ w, x ≠ 0) →
    qualified q w r = .ok (q.degree 1)
  /-- a qualified proportion is a proportion -/
  proportional : ∀ w r, AreDegrees w → AreDegrees r → w.length = r.length →
    share w r ∈ unitInterval ∧
      qualified q w r = .ok (if w.sum = 0 then 0 else q.degree (share w r))
  /-- one row is not compound -/
  single : ∀ r, AreDegrees r →
    conjunctive q [r] = .ok (simple q r) ∧ disjunctive q [r] = .ok (simple q r)
  /-- rows may trade places -/
  rows : ∀ rows rows' : List (List ℝ), rows.Perm rows' →
    conjunctive q rows = conjunctive q rows' ∧ disjunctive q rows = disjunctive q rows'
  /-- elements may trade places in all rows at once -/
  places : ∀ n rows order, OfLength n rows → order.Perm (List.range n) →
    conjunctive q (rows.map (reordered order)) = conjunctive q rows ∧
      disjunctive q (rows.map (reordered order)) = disjunctive q rows
  /-- a compound row is below or above each of its rows, and the quantifier follows -/
  between : ∀ n rows, OfLength n rows → (∀ row ∈ rows, AreDegrees row) → ∀ row ∈ rows,
    ∃ x y, conjunctive q rows = .ok x ∧ disjunctive q rows = .ok y ∧
      (MonotoneOn q.degree unitInterval → x ≤ simple q row ∧ simple q row ≤ y) ∧
      (AntitoneOn q.degree unitInterval → simple q row ≤ x ∧ y ≤ simple q row)
  /-- lists of different lengths are refused as bad values -/
  unequal : ∀ w r, w.length ≠ r.length → qualified q w r = .error .unequalMemberships
  unequalRows : ∀ rows : List (List ℝ),
    (∃ row ∈ rows, ∃ row' ∈ rows, row.length ≠ row'.length) →
    conjunctive q rows = .error .unequalMemberships ∧
      disjunctive q rows = .error .unequalMemberships
  badValue : (Fault.unequalMemberships : Fault ℝ).category = .badValue

/-- **The truth values of plain, qualified and compound summaries are consistent**, under every
quantifier. -/
theorem consistent (q : Quantifier ℝ) : Consistent q where
  ones r hr := by
    rw [qualified_eq q (by simp), share_ones hr]
    by_cases hnil : r = []
    · simp [hnil, simple_nil]
    · have hsum : (r.map fun _ => (1 : ℝ)).sum ≠ 0 := by simpa using hnil
      rw [if_neg hsum, simple_of_ne_nil hnil]
  weaker w r hw h := by
    rintro ⟨x, hx, hx0⟩
    have hle : x ≤ w.sum := List.single_le_sum (fun y hy => (hw y hy).1) x hx
    have hsum : w.sum ≠ 0 := fun hsum => hx0 (le_antisymm (hsum ▸ hle) (hw x hx).1)
    rw [qualified_eq q h.length_eq, if_neg hsum, share_of_le h hsum]
  proportional w r hw hr h := ⟨share_mem hw hr h, qualified_eq q h⟩
  single r hr := by
    rw [conjunctive_eq, disjunctive_eq, pointwise_single fun x hx => min_eq_right (hr x hx).2,
      pointwise_single fun x hx => max_eq_right (hr x hx).1]
    exact ⟨rfl, rfl⟩
  rows rows rows' h := by
    rw [conjunctive_eq, conjunctive_eq, disjunctive_eq, disjunctive_eq,
      pointwise_perm (fun z x y => min_right_comm z x y) h,
      pointwise_perm (fun z x y => max_right_comm z x y) h]
    exact ⟨rfl, rfl⟩
  places n rows order hn horder := by
    obtain ⟨xs, ys, hxs, hys, hmin⟩ := pointwise_reordered min 1 horder hn
    obtain ⟨xs', ys', hxs', hys', hmax⟩ := pointwise_reordered max 0 horder hn
    simp only [conjunctive_eq, disjunctive_eq, hxs, hys, hxs', hys', Except.map,
      simple_perm hmin, simple_perm hmax]
    exact ⟨trivial, trivial⟩
  between n rows hn hrows row hrow := by
    obtain ⟨xs, hxs, hdx, hle⟩ := pointwise_min_le hn hrows hrow
    obtain ⟨ys, hys, hdy, hge⟩ := le_pointwise_max hn hrows hrow
    have hdr : AreDegrees row := hrows row hrow
    refine ⟨simple q xs, simple q ys, by rw [conjunctive_eq, hxs]; rfl,
      by rw [disjunctive_eq, hys]; rfl, fun hq => ?_, fun hq => ?_⟩
    · exact ⟨simple_mono hq hdx hdr hle, simple_mono hq hdr hdy hge⟩
    · exact ⟨simple_anti hq hdx hdr hle, simple_anti hq hdr hdy hge⟩
  unequal w r h := by rw [qualified, if_pos h]
  unequalRows rows h := by
    rw [conjunctive_eq, disjunctive_eq, pointwise_of_unequal h, pointwise_of_unequal h]
    exact ⟨rfl, rfl⟩
  badValue := rfl

/-- A quantifier that holds to the degree that a proportion is. -/
noncomputable def rising : Quantifier ℝ := ⟨"rising", .rightShoulder 0 1, .rising⟩

theorem monotone_rising : Monotone rising.degree := Shape.degree_rightShoulder_mono zero_lt_one

/-- Two rows of two elements, with a compound row on either side of the first. -/
theorem consistent_rising :
    MonotoneOn rising.degree unitInterval ∧ OfLength 2 [[1 / 2, 1], [1, 0]] ∧
      (∀ row ∈ [[1 / 2, 1], [1, 0]], AreDegrees row) ∧
      (∃ x y, conjunctive rising [[1 / 2, 1], [1, 0]] = .ok x ∧
        disjunctive rising [[1 / 2, 1], [1, 0]] = .ok y ∧
        x ≤ simple rising [1 / 2, 1] ∧ simple rising [1 / 2, 1] ≤ y) ∧
      qualified rising [1 / 2, 0] [1 / 2, 1] = .ok (rising.degree 1) ∧
      qualified rising [1 / 2, 0] [1] = .error .unequalMemberships := by
  have hmono : MonotoneOn rising.degree unitInterval := monotone_rising.monotoneOn _
  have hlength : OfLength 2 [[1 / 2, 1], [1, 0]] := by simp [OfLength]
  have hrows : ∀ row ∈ [[1 / 2, 1], [1, 0]], AreDegrees row := by norm_num [AreDegrees]
  have h := consistent rising
  obtain ⟨x, y, hx, hy, hbetween, -⟩ := h.between 2 _ hlength hrows [1 / 2, 1] (by simp)
  have hqualifier : AreDegrees [1 / 2, 0] := by norm_num [AreDegrees]
  exact ⟨hmono, hlength, hrows, ⟨x, y, hx, hy, hbetween hmono⟩,
    h.weaker [1 / 2, 0] [1 / 2, 1] hqualifier (.cons le_rfl (.cons zero_le_one .nil))
      ⟨1 / 2, by simp, by norm_num⟩, h.unequal _ _ (by simp)⟩

end Truth
end Graded
