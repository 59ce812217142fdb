/-
# Which summaries are generated

To generate summaries is to try every quantifier on every summarizer, to keep what is true enough,
and to sort it by descending truth.  Each summary that is tried has a place in a table, by the
numbers of its summarizer and its quantifier, and the result is determined by these places
(`Summary.Ranking`): the places whose truth reaches the threshold occur once each, in descending
truth, and those of one truth in the order of the table.

The sort keeps what is sorted before it.  An element goes in front of all that it is not exceeded
by, and the others stay as they are (`mergeSort_cons_eq`); hence parts of a list are sorted into
parts of the sorted list (`sublist_mergeSort_of_sublist`).  So a higher threshold takes away the end
of the result, and one more summarizer puts its own summaries between the others.

All of this holds wherever the numbers that can be compared are in a linear order, which is so in
doubles, too.  That the order of the items does not matter takes sums that do not depend on it
(`Scalar.Rearranges`), as in exact arithmetic.
-/
import Graded.Proofs.Arranging
import Graded.Proofs.Comparable
import Graded.Proofs.Success
import Graded.Summary.Generation

namespace Graded

/-! ## 1. Stable sorts -/

section

variable {β : Type} {le : β → β → Bool} {R : β → β → Prop} {k l : List β}
  (htrans : ∀ a b c, le a b → le b c → le a c) (htotal : ∀ a b, le a b || le b a)

include htrans htotal

/-- An element is sorted behind those that it does not precede, and before the others. -/
theorem mergeSort_cons_eq (x : β) (l : List β) :
    l.mergeSort le = (l.mergeSort le).filter (!le x ·) ++ (l.mergeSort le).filter (le x ·) ∧
      (x :: l).mergeSort le =
        (l.mergeSort le).filter (!le x ·) ++ x :: (l.mergeSort le).filter (le x ·) := by
  obtain ⟨front, back, hcons, hsort, hfront⟩ := List.mergeSort_cons htrans htotal x l
  have hback : ∀ y ∈ back, le x y := by
    have hsorted := List.pairwise_mergeSort htrans htotal (x :: l)
    rw [hcons] at hsorted
    exact (List.pairwise_cons.mp (List.pairwise_append.mp hsorted).2.1).1
  have hbefore : (l.mergeSort le).filter (!le x ·) = front := by
    rw [hsort, List.filter_append, List.filter_eq_self.mpr hfront,
      List.filter_eq_nil_iff.mpr fun y hy => by simp [hback y hy], List.append_nil]
  have hafter : (l.mergeSort le).filter (le x ·) = back := by
    rw [hsort, List.filter_append, List.filter_eq_self.mpr hback,
      List.filter_eq_nil_iff.mpr fun y hy => by simpa using hfront y hy, List.nil_append]
  rw [hbefore, hafter]
  exact ⟨hsort, hcons⟩

/-- **A stable sort keeps the order of elements that precede each other.** -/
theorem pairwise_mergeSort_stable (h : l.Pairwise R) :
    (l.mergeSort le).Pairwise fun a b => le a b ∧ (le b a → R a b) := by
  induction l with
  | nil => simp
  | cons x l ih =>
    obtain ⟨hx, hl⟩ := List.pairwise_cons.mp h
    obtain ⟨hsort, hcons⟩ := mergeSort_cons_eq htrans htotal x l
    have hrest := ih hl
    rw [hsort] at hrest
    rw [hcons]
    obtain ⟨hfront, hback, hacross⟩ := List.pairwise_append.mp hrest
    refine List.pairwise_append.mpr ⟨hfront, List.pairwise_cons.mpr ⟨?_, hback⟩, ?_⟩
    · intro y hy
      obtain ⟨hmem, hxy⟩ := List.mem_filter.mp hy
      exact ⟨hxy, fun _ => hx y (List.mem_mergeSort.mp hmem)⟩
    · intro y hy z hz
      rcases List.mem_cons.mp hz with rfl | hz
      · have hzy : ¬ le z y := by simpa using (List.mem_filter.mp hy).2
        refine ⟨?_, fun h => absurd h hzy⟩
        simpa [hzy] using htotal z y
      · exact hacross y hy z hz

/-- **Parts of a list are sorted into parts of the sorted list.** -/
theorem sublist_mergeSort_of_sublist (h : k.Sublist l) :
    (k.mergeSort le).Sublist (l.mergeSort le) := by
  induction h with
  | slnil => exact List.Sublist.refl _
  | @cons k l x _ ih =>
    obtain ⟨hsort, hcons⟩ := mergeSort_cons_eq htrans htotal x l
    rw [hcons]
    refine ih.trans ?_
    conv_lhs => rw [hsort]
    exact List.Sublist.append_left (List.sublist_cons_self _ _) _
  | @cons_cons k l x _ ih =>
    rw [(mergeSort_cons_eq htrans htotal x k).2, (mergeSort_cons_eq htrans htotal x l).2]
    exact (ih.filter _).append ((ih.filter _).cons_cons x)

end

/-! ## 2. Sorts by descending value -/

namespace Scalar.Comparable

variable {α β : Type} [Scalar α] {value : β → α} {R : β → β → Prop} {k l : List β} {x y z t t' : α}

theorem le_trans (hα : Comparable α) (hxy : x ≤ y) (hyz : y ≤ z) : x ≤ z :=
  hα.ordered.trans (hα.defined hxy).1 (hα.defined hxy).2 (hα.defined hyz).2 hxy hyz

/-- The elements with defined values, sorted among themselves. -/
theorem mergeSort_map_val (k : List {y : β // undefined (value y) = false}) :
    (k.map Subtype.val).mergeSort (fun s t => decide (value t ≤ value s)) =
      (k.mergeSort fun s t => decide (value t.1 ≤ value s.1)).map Subtype.val := by
  rw [List.map_mergeSort]
  intro a _ b _
  rfl

/-- There the comparison is total, and the sort does what it should. -/
theorem descends (hα : Comparable α) (value : β → α) :
    (∀ a b c : {y : β // undefined (value y) = false}, decide (value b.1 ≤ value a.1) →
        decide (value c.1 ≤ value b.1) → decide (value c.1 ≤ value a.1)) ∧
      ∀ a b : {y : β // undefined (value y) = false},
        decide (value b.1 ≤ value a.1) || decide (value a.1 ≤ value b.1) := by
  constructor
  · intro a b c hab hbc
    exact decide_eq_true (hα.le_trans (of_decide_eq_true hbc) (of_decide_eq_true hab))
  · intro a b
    simpa using hα.ordered.total b.2 a.2

theorem exists_map_val (hl : ∀ y ∈ l, undefined (value y) = false) :
    ∃ k : List {y : β // undefined (value y) = false}, l = k.map Subtype.val :=
  ⟨l.attachWith _ hl, (List.attachWith_map_subtype_val _).symm⟩

/-- **Elements of descending value, those of one value in their order.** -/
theorem pairwise_mergeSort (hα : Comparable α) (hl : ∀ y ∈ l, undefined (value y) = false)
    (h : l.Pairwise R) : (l.mergeSort fun s t => decide (value t ≤ value s)).Pairwise
      fun a b => value b ≤ value a ∧ (value a ≤ value b → R a b) := by
  obtain ⟨k, rfl⟩ := exists_map_val hl
  obtain ⟨htrans, htotal⟩ := hα.descends value
  rw [mergeSort_map_val, List.pairwise_map]
  refine (pairwise_mergeSort_stable htrans htotal (List.pairwise_map.mp h)).imp ?_
  rintro a b ⟨hab, hties⟩
  exact ⟨of_decide_eq_true hab, fun hba => hties (decide_eq_true hba)⟩

theorem sublist_mergeSort (hα : Comparable α) (hl : ∀ y ∈ l, undefined (value y) = false)
    (h : k.Sublist l) : (k.mergeSort fun s t => decide (value t ≤ value s)).Sublist
      (l.mergeSort fun s t => decide (value t ≤ value s)) := by
  obtain ⟨l, rfl⟩ := exists_map_val hl
  obtain ⟨k, hk, rfl⟩ := List.sublist_map_iff.mp h
  obtain ⟨htrans, htotal⟩ := hα.descends value
  rw [mergeSort_map_val, mergeSort_map_val]
  exact (sublist_mergeSort_of_sublist htrans htotal hk).map _

/-- **A higher threshold keeps a prefix.** -/
theorem mergeSort_prefix (hα : Comparable α) (htt' : t ≤ t') (l : List β) :
    ((l.filter fun a => t' ≤ value a).mergeSort fun a b => decide (value b ≤ value a)) <+:
      (l.filter fun a => t ≤ value a).mergeSort fun a b => decide (value b ≤ value a) := by
  set low := (l.filter fun a => t ≤ value a).mergeSort fun a b => decide (value b ≤ value a)
    with hlow
  set high := (l.filter fun a => t' ≤ value a).mergeSort fun a b => decide (value b ≤ value a)
    with hhigh
  have hpart : (l.filter fun a => decide (t ≤ value a)).filter (fun a => t' ≤ value a) =
      l.filter fun a => decide (t' ≤ value a) := by
    rw [List.filter_filter]
    refine List.filter_congr fun a _ => ?_
    simpa using fun ha => hα.le_trans htt' ha
  have hdefined : ∀ a ∈ l.filter fun a => decide (t ≤ value a), undefined (value a) = false := by
    intro a ha
    exact (hα.defined (of_decide_eq_true (List.mem_filter.mp ha).2)).2
  have hsub : high.Sublist low :=
    hα.sublist_mergeSort hdefined (hpart ▸ List.filter_sublist)
  -- what is sorted under the higher threshold is all that reaches it
  have hreach : high.filter (fun a => t' ≤ value a) = high := by
    refine List.filter_eq_self.mpr fun a ha => ?_
    exact (List.mem_filter.mp (List.mem_mergeSort.mp ha)).2
  have hlength : high.length = (low.filter fun a => t' ≤ value a).length := by
    rw [hhigh, ((List.mergeSort_perm _ _).filter _).length_eq, hpart, List.length_mergeSort]
  have heq : high = low.filter fun a => t' ≤ value a := by
    refine List.Sublist.eq_of_length ?_ hlength
    rw [← hreach]
    exact hsub.filter _
  have hdescending := (hα.pairwise_mergeSort (R := fun _ _ => True) hdefined
    (List.pairwise_of_forall fun _ _ => trivial)).imp And.left
  rw [heq]
  exact filter_isPrefix hα.le_trans hdescending t'

end Scalar.Comparable

/-! ## 3. The table of summaries -/

/-- Sums of numbers do not depend on their order. -/
def Scalar.Rearranges (α : Type) [Scalar α] : Prop :=
  ∀ xs ys : List α, xs.Perm ys → total xs = total ys

theorem Scalar.rearranges_real : Scalar.Rearranges ℝ := by
  intro xs ys h
  rw [total_eq_sum, total_eq_sum, h.sum_eq]

namespace Summary

variable {α ι : Type} [Scalar α] {items items' : List ι} {summarizers : List (Summarizer ι α)}
  {degree : Summarizer ι α → ι → α} {subject : String} {least : α}
  {quantifiers : List (Quantifier α)} {i j : ℕ}

/-- A place of a table is before another one, in its row or in an earlier row. -/
def Before (p p' : ℕ × ℕ) : Prop := p.1 < p'.1 ∨ p.1 = p'.1 ∧ p.2 < p'.2

/-- All summaries of some items, each at its place: a row for each summarizer, with a summary for
each quantifier. -/
def table (items : List ι) (summarizers : List (Summarizer ι α)) (degree : Summarizer ι α → ι → α)
    (subject : String) (quantifiers : List (Quantifier α)) : List ((ℕ × ℕ) × Summary α) :=
  summarizers.zipIdx.flatMap fun (s, i) => quantifiers.zipIdx.map fun (q, j) =>
    ((i, j), ofDegrees subject s.name (items.map (degree s)) q)

theorem mem_table {t : Summary α} :
    ((i, j), t) ∈ table items summarizers degree subject quantifiers ↔
      ∃ s q, summarizers[i]? = some s ∧ quantifiers[j]? = some q ∧
        t = ofDegrees subject s.name (items.map (degree s)) q := by
  simp only [table, List.mem_flatMap, List.mem_map, Prod.exists, List.mem_zipIdx_iff_getElem?]
  constructor
  · rintro ⟨s, i', hs, q, j', hq, heq⟩
    simp only [Prod.mk.injEq] at heq
    obtain ⟨⟨rfl, rfl⟩, rfl⟩ := heq
    exact ⟨s, q, hs, hq, rfl⟩
  · rintro ⟨s, q, hs, hq, rfl⟩
    exact ⟨s, i, hs, q, j, hq, rfl⟩

theorem pairwise_zipIdx {β : Type} (l : List β) : l.zipIdx.Pairwise fun a b => a.2 < b.2 := by
  have hplaces : (l.zipIdx.map Prod.snd).Pairwise (· < ·) := by
    rw [List.zipIdx_map_snd]
    exact List.pairwise_lt_range'
  exact List.pairwise_map.mp hplaces

/-- The table is written row by row. -/
theorem pairwise_table :
    (table items summarizers degree subject quantifiers).Pairwise fun a b => Before a.1 b.1 := by
  refine List.pairwise_flatMap.mpr ⟨?_, ?_⟩
  · rintro ⟨s, i⟩ _
    refine List.pairwise_map.mpr ((pairwise_zipIdx quantifiers).imp ?_)
    intro a b hab
    exact .inr ⟨rfl, hab⟩
  · refine (pairwise_zipIdx summarizers).imp ?_
    rintro ⟨s, i⟩ ⟨s', i'⟩ hlt a ha b hb
    obtain ⟨_, _, rfl⟩ := List.mem_map.mp ha
    obtain ⟨_, _, rfl⟩ := List.mem_map.mp hb
    exact .inl hlt

/-- The summaries of the table, row by row. -/
def rows (items : List ι) (summarizers : List (Summarizer ι α)) (degree : Summarizer ι α → ι → α)
    (subject : String) (quantifiers : List (Quantifier α)) : List (Summary α) :=
  summarizers.flatMap fun s => quantifiers.map (ofDegrees subject s.name (items.map (degree s)))

theorem map_snd_table : (table items summarizers degree subject quantifiers).map (·.2) =
    rows items summarizers degree subject quantifiers := by
  rw [table, rows, List.map_flatMap]
  conv_rhs => rw [← List.zipIdx_map_fst 0 summarizers, List.flatMap_map]
  refine List.flatMap_congr ?_
  rintro ⟨s, i⟩ _
  conv_rhs => rw [← List.zipIdx_map_fst 0 quantifiers, List.map_map]
  rw [List.map_map]
  rfl

/-! ## 4. What is generated -/

/-- The summaries that are true enough, by descending truth. -/
def chosen (least : α) (summaries : List (Summary α)) : List (Summary α) :=
  ranked (summaries.filter fun t => least ≤ t.truth)

/-- **What is generated** is chosen from the rows of the table. -/
theorem generate_eq_chosen
    (h : ∀ s ∈ summarizers, ∀ item ∈ items, s.degree item = .ok (degree s item)) (least : α) :
    generate items summarizers subject least quantifiers =
      .ok (chosen least (rows items summarizers degree subject quantifiers)) := by
  have hfound : summarizers.mapM (fun s => do
      return candidates subject least quantifiers s.name (← items.mapM s.degree)) =
      (.ok (summarizers.map fun s => candidates subject least quantifiers s.name
        (items.map (degree s))) : Except (Fault α) _) := by
    refine mapM_ok fun s hs => ?_
    rw [mapM_ok (h s hs)]
    rfl
  rw [generate, hfound, chosen, rows, List.filter_flatMap]
  rfl

theorem mem_chosen_rows {t : Summary α} :
    t ∈ chosen least (rows items summarizers degree subject quantifiers) ↔
      ∃ s ∈ summarizers, ∃ q ∈ quantifiers,
        t = ofDegrees subject s.name (items.map (degree s)) q ∧ least ≤ t.truth := by
  rw [chosen, ranked, List.mem_mergeSort, List.mem_filter, decide_eq_true_eq, rows,
    List.mem_flatMap]
  constructor
  · rintro ⟨⟨s, hs, ht⟩, hleast⟩
    obtain ⟨q, hq, rfl⟩ := List.mem_map.mp ht
    exact ⟨s, hs, q, hq, rfl, hleast⟩
  · rintro ⟨s, hs, q, hq, rfl, hleast⟩
    exact ⟨⟨s, hs, List.mem_map_of_mem hq⟩, hleast⟩

theorem chosen_perm (least : α) (l : List (Summary α)) :
    (chosen least l).Perm (l.filter fun t => least ≤ t.truth) :=
  List.mergeSort_perm _ _

/-- What is chosen from a part of some summaries is a part of what is chosen from all of them. -/
theorem chosen_sublist (hα : Scalar.Comparable α) {k l : List (Summary α)} (h : k.Sublist l) :
    (chosen least k).Sublist (chosen least l) := by
  refine hα.sublist_mergeSort ?_ (h.filter _)
  intro t ht
  exact (hα.defined (of_decide_eq_true (List.mem_filter.mp ht).2)).2

/-- **One more summarizer puts its own summaries between the others**, which stay in their
order. -/
theorem chosen_insert (hα : Scalar.Comparable α) (before after : List (Summarizer ι α))
    (s : Summarizer ι α) :
    (chosen least (rows items (before ++ after) degree subject quantifiers)).Sublist
      (chosen least (rows items (before ++ s :: after) degree subject quantifiers)) ∧
    (chosen least (rows items (before ++ s :: after) degree subject quantifiers)).Perm
      (chosen least (rows items (before ++ after) degree subject quantifiers) ++
        chosen least (rows items [s] degree subject quantifiers)) := by
  have hrows : ∀ l l' : List (Summarizer ι α), rows items (l ++ l') degree subject quantifiers =
      rows items l degree subject quantifiers ++ rows items l' degree subject quantifiers :=
    fun _ _ => List.flatMap_append
  have hall : rows items (before ++ s :: after) degree subject quantifiers =
      rows items before degree subject quantifiers ++
        (rows items [s] degree subject quantifiers ++
          rows items after degree subject quantifiers) := by
    rw [hrows, ← List.singleton_append, hrows]
  rw [hall, hrows]
  constructor
  · exact chosen_sublist hα (List.Sublist.append_left (List.sublist_append_right _ _) _)
  · refine (chosen_perm _ _).trans (List.Perm.trans ?_
      ((chosen_perm _ _).append (chosen_perm _ _)).symm)
    simp only [List.filter_append, List.append_assoc]
    exact List.Perm.append_left _ List.perm_append_comm

/-- Where sums do not depend on their order, neither does what is told of some items. -/
theorem ofDegrees_perm (hα : Scalar.Rearranges α) {xs ys : List α} (h : xs.Perm ys)
    (subject name : String) (q : Quantifier α) :
    ofDegrees subject name xs q = ofDegrees subject name ys q := by
  have hmean : Scalar.mean xs = Scalar.mean ys := by
    rw [Scalar.mean, Scalar.mean, hα xs ys h, h.length_eq]
  have hproportion : proportion xs = proportion ys := by
    rw [proportion, proportion, hmean, h.isEmpty_eq]
  rw [ofDegrees, ofDegrees, Truth.simple, Truth.simple, hproportion, h.isEmpty_eq]

theorem rows_perm (hα : Scalar.Rearranges α) (h : items.Perm items') :
    rows items' summarizers degree subject quantifiers =
      rows items summarizers degree subject quantifiers := by
  have hrow : ∀ s : Summarizer ι α,
      ofDegrees subject s.name (items'.map (degree s)) =
        ofDegrees subject s.name (items.map (degree s)) :=
    fun s => funext fun q => ofDegrees_perm hα (h.symm.map _) _ _ _
  simp only [rows, hrow]

/-! ## 5. Places -/

/-- A summary says what a quantifier and a summarizer make of some degrees. -/
structure Tells (t : Summary α) (subject : String) (s : Summarizer ι α) (q : Quantifier α)
    (degrees : List α) : Prop where
  quantifier_eq : t.quantifier = q.name
  summarizer_eq : t.summarizer = s.name
  subject_eq : t.subject = subject
  truth_eq : t.truth = Truth.simple q degrees
  support_eq : t.support = proportion degrees
  statement_eq : ∀ _ : Legible α,
    t.statement = Text.spaced q.name ++ " of the " ++ subject ++ " are " ++ s.name

/-- The summaries of a list, at their places, are those that are true enough, each of them once, by
descending truth and in the order of the table where they are equally true. -/
structure Ranking (items : List ι) (summarizers : List (Summarizer ι α))
    (degree : Summarizer ι α → ι → α) (subject : String) (least : α)
    (quantifiers : List (Quantifier α)) (told : List ((ℕ × ℕ) × Summary α)) : Prop where
  once : (told.map (·.1)).Nodup
  mem_iff : ∀ i j, (i, j) ∈ told.map (·.1) ↔ ∃ s q, summarizers[i]? = some s ∧
    quantifiers[j]? = some q ∧ least ≤ Truth.simple q (items.map (degree s))
  tells : ∀ e ∈ told, ∃ s q, summarizers[e.1.1]? = some s ∧ quantifiers[e.1.2]? = some q ∧
    Tells e.2 subject s q (items.map (degree s))
  ordered : told.Pairwise fun e e' =>
    e'.2.truth ≤ e.2.truth ∧ (e.2.truth ≤ e'.2.truth → Before e.1 e'.1)

/-- The entries of the table that are true enough, sorted with their places. -/
def told (items : List ι) (summarizers : List (Summarizer ι α)) (degree : Summarizer ι α → ι → α)
    (subject : String) (least : α) (quantifiers : List (Quantifier α)) :
    List ((ℕ × ℕ) × Summary α) :=
  ((table items summarizers degree subject quantifiers).filter fun e => least ≤ e.2.truth).mergeSort
    fun e e' => decide (e'.2.truth ≤ e.2.truth)

theorem chosen_rows : chosen least (rows items summarizers degree subject quantifiers) =
    (told items summarizers degree subject least quantifiers).map (·.2) := by
  rw [chosen, ← map_snd_table, List.filter_map, told, List.map_mergeSort]
  · rfl
  · intro a _ b _
    rfl

theorem ranking_told (hα : Scalar.Comparable α) : Ranking items summarizers degree subject least
    quantifiers (told items summarizers degree subject least quantifiers) := by
  have hmem : ∀ e, e ∈ told items summarizers degree subject least quantifiers ↔
      e ∈ table items summarizers degree subject quantifiers ∧ least ≤ e.2.truth := by
    intro e
    rw [told, List.mem_mergeSort, List.mem_filter, decide_eq_true_eq]
  constructor
  · have hplaces : ((table items summarizers degree subject quantifiers).map (·.1)).Nodup := by
      refine List.pairwise_map.mpr (pairwise_table.imp ?_)
      rintro a b hab heq
      rw [heq] at hab
      rcases hab with hlt | ⟨-, hlt⟩
      · exact lt_irrefl _ hlt
      · exact lt_irrefl _ hlt
    have hkept := hplaces.sublist (List.filter_sublist (p := fun e => least ≤ e.2.truth).map _)
    exact ((List.mergeSort_perm _ _).map _).nodup_iff.mpr hkept
  · intro i j
    rw [List.mem_map]
    constructor
    · rintro ⟨⟨_, t⟩, ht, rfl⟩
      obtain ⟨htable, hleast⟩ := (hmem _).mp ht
      obtain ⟨s, q, hs, hq, rfl⟩ := mem_table.mp htable
      exact ⟨s, q, hs, hq, hleast⟩
    · rintro ⟨s, q, hs, hq, hleast⟩
      exact ⟨_, (hmem _).mpr ⟨mem_table.mpr ⟨s, q, hs, hq, rfl⟩, hleast⟩, rfl⟩
  · rintro ⟨⟨i, j⟩, t⟩ ht
    obtain ⟨s, q, hs, hq, rfl⟩ := mem_table.mp ((hmem _).mp ht).1
    exact ⟨s, q, hs, hq, rfl, rfl, rfl, rfl, rfl, fun _ => rfl⟩
  · refine hα.pairwise_mergeSort ?_ (pairwise_table.filter _)
    intro e he
    exact (hα.defined (of_decide_eq_true (List.mem_filter.mp he).2)).2

/-- **The ranking of summaries.**  Where every item has a degree by every summarizer, generating
summaries gives those that are true enough, each of them once at its place.  A higher threshold
keeps a prefix of them.  One more summarizer puts its own summaries between the others, and, where
sums do not depend on their order, the items may trade places. -/
theorem generate_ranking (hα : Scalar.Comparable α)
    (h : ∀ s ∈ summarizers, ∀ item ∈ items, s.degree item = .ok (degree s item)) :
    ∃ result, generate items summarizers subject least quantifiers = .ok result ∧
      (∃ told, Ranking items summarizers degree subject least quantifiers told ∧
        result = told.map (·.2)) ∧
      (∀ least', least ≤ least' → ∃ shorter,
        generate items summarizers subject least' quantifiers = .ok shorter ∧ shorter <+: result) ∧
      (∀ before s after, summarizers = before ++ s :: after → ∃ others own,
        generate items (before ++ after) subject least quantifiers = .ok others ∧
          generate items [s] subject least quantifiers = .ok own ∧
          others.Sublist result ∧ result.Perm (others ++ own)) ∧
      (Scalar.Rearranges α → ∀ items', items.Perm items' →
        generate items' summarizers subject least quantifiers = .ok result) := by
  refine ⟨_, generate_eq_chosen h least, ⟨_, ranking_told hα, chosen_rows⟩, ?_, ?_, ?_⟩
  · intro least' hle
    exact ⟨_, generate_eq_chosen h least', hα.mergeSort_prefix hle _⟩
  · rintro before s after rfl
    have hothers : ∀ s' ∈ before ++ after, ∀ item ∈ items,
        s'.degree item = .ok (degree s' item) := by
      intro s' hs'
      exact h s' (List.mem_append.mpr ((List.mem_append.mp hs').imp_right (List.mem_cons_of_mem _)))
    have hown : ∀ s' ∈ [s], ∀ item ∈ items, s'.degree item = .ok (degree s' item) := by
      intro s' hs'
      rw [List.mem_singleton.mp hs']
      exact h s (List.mem_append_right _ List.mem_cons_self)
    obtain ⟨hsub, hperm⟩ := chosen_insert hα before after s
    exact ⟨_, _, generate_eq_chosen hothers least, generate_eq_chosen hown least, hsub, hperm⟩
  · intro hsums items' hperm
    have hitems : ∀ s ∈ summarizers, ∀ item ∈ items', s.degree item = .ok (degree s item) :=
      fun s hs item hitem => h s hs item (hperm.mem_iff.mpr hitem)
    rw [generate_eq_chosen hitems, rows_perm hsums hperm]

/-- A degree is high to this degree. -/
def high : Summarizer α α := ⟨"high", .ok⟩

/-- It is low as far as it is not high. -/
def low : Summarizer α α := ⟨"low", fun x => .ok (1 - x)⟩

/-- What the two of them make of a degree. -/
def highOrLow (s : Summarizer α α) (x : α) : α := if s.name = "high" then x else 1 - x

theorem degree_highOrLow (xs : List α) :
    ∀ s ∈ [high, low], ∀ x ∈ xs, s.degree x = .ok (highOrLow s x) := by
  intro s hs x _
  simp only [List.mem_cons, List.not_mem_nil, or_false] at hs
  rcases hs with rfl | rfl
  · rfl
  · rfl

/-- Of five degrees, three are high. -/
def five : List α := [1, 1, 1, 0, 0]

/-- Five degrees and two summarizers of them, in exact arithmetic and in doubles. -/
theorem generate_ranking_five :
    (Scalar.Comparable ℝ ∧ Scalar.Rearranges ℝ ∧ ∃ result shorter others own : List (Summary ℝ),
      generate five [high, low] "results" 0.5 Quantifier.relative = .ok result ∧
      generate five [high, low] "results" 0.9 Quantifier.relative = .ok shorter ∧
      shorter <+: result ∧
      generate five [high] "results" 0.5 Quantifier.relative = .ok others ∧
      generate five [low] "results" 0.5 Quantifier.relative = .ok own ∧
      others.Sublist result ∧ result.Perm (others ++ own) ∧
      generate five.reverse [high, low] "results" 0.5 Quantifier.relative = .ok result) ∧
    Scalar.Comparable Float ∧ ∃ told : List ((ℕ × ℕ) × Summary Float),
      generate five [high, low] "results" 0.5 Quantifier.relative = .ok (told.map (·.2)) ∧
      Ranking five [high, low] highOrLow "results" 0.5 Quantifier.relative told := by
  constructor
  · obtain ⟨result, hresult, -, hprefix, hadded, hperm⟩ :=
      @generate_ranking ℝ ℝ _ five [high, low] highOrLow "results" 0.5 Quantifier.relative
        Scalar.comparable_real (degree_highOrLow five)
    obtain ⟨shorter, hshorter, hpre⟩ := hprefix 0.9 (by norm_num)
    obtain ⟨others, own, hothers, hown, hsub, hboth⟩ := hadded [high] low [] rfl
    exact ⟨Scalar.comparable_real, Scalar.rearranges_real, result, shorter, others, own, hresult,
      hshorter, hpre, hothers, hown, hsub, hboth,
      hperm Scalar.rearranges_real _ (List.reverse_perm _).symm⟩
  · obtain ⟨_, hresult, ⟨told, htold, rfl⟩, -⟩ :=
      @generate_ranking Float Float _ five [high, low] highOrLow "results" 0.5 Quantifier.relative
        Decimal.comparable_double (degree_highOrLow five)
    exact ⟨Decimal.comparable_double, told, hresult, htold⟩

end Summary
end Graded
