/-
# The first of the greatest

A search that is displaced only by strictly greater values, and a stable sort by descending value,
both put one element first: the one that exceeds all before it and is exceeded by none after it
(`Leads`).  There is at most one such element (`Leads.unique`), so the search and the sort agree
(`strongest_leads`, `exists_mergeSort`).

Nothing is asked of the arithmetic but that the values that occur are in a linear order
(`Scalar.Ordered`).  Exact numbers are, and so are doubles that are defined.
-/
import Graded.Proofs.Exact
import Graded.Grading

namespace Graded

/-! ## 1. Numbers in order -/

/-- The comparisons of the numbers that satisfy `P` are those of a linear order. -/
structure Scalar.Ordered {α : Type} [Scalar α] (P : α → Prop) : Prop where
  total : ∀ {x y}, P x → P y → x ≤ y ∨ y ≤ x
  trans : ∀ {x y z}, P x → P y → P z → x ≤ y → y ≤ z → x ≤ z
  lt_iff : ∀ {x y}, P x → P y → (x < y ↔ ¬ y ≤ x)

theorem Scalar.ordered_real : Scalar.Ordered fun _ : ℝ => True :=
  ⟨fun _ _ => le_total _ _, fun _ _ _ => le_trans, fun _ _ => not_le.symm⟩

/-! ## 2. The element that leads -/

section

variable {α β : Type} [Scalar α] {value : β → α} {x y z : β} {l : List β}

/-- The element exceeds all before it, and none after it exceeds it. -/
def Leads (value : β → α) (l : List β) (x : β) : Prop :=
  ∃ before after, l = before ++ x :: after ∧ (∀ y ∈ before, ¬ value x ≤ value y) ∧
    ∀ y ∈ after, value y ≤ value x

/-- **At most one element leads.** -/
theorem Leads.unique (hx : Leads value l x) (hy : Leads value l y) : x = y := by
  obtain ⟨before, after, rfl, hbefore, hafter⟩ := hx
  obtain ⟨before', after', heq, hbefore', hafter'⟩ := hy
  rcases List.append_eq_append_iff.mp heq with ⟨gap, rfl, hgap⟩ | ⟨gap, rfl, hgap⟩
  · cases gap with
    | nil => exact (List.cons.inj hgap).1
    | cons w gap =>
      obtain ⟨rfl, rfl⟩ := List.cons.inj hgap
      exact absurd (hafter y (by simp)) (hbefore' x (by simp))
  · cases gap with
    | nil => exact (List.cons.inj hgap).1.symm
    | cons w gap =>
      obtain ⟨rfl, rfl⟩ := List.cons.inj hgap
      exact absurd (hafter' x (by simp)) (hbefore y (by simp))

theorem leads_singleton (x : β) : Leads value [x] x := ⟨[], [], rfl, by simp, by simp⟩

/-- The place of the element that leads. -/
theorem Leads.exists_place (h : Leads value l x) : ∃ i, ∃ hi : i < l.length, l[i] = x ∧
    (∀ j (hj : j < i), ¬ value x ≤ value l[j]) ∧
      ∀ j (hj : j < l.length), i < j → value l[j] ≤ value x := by
  obtain ⟨before, after, rfl, hbefore, hafter⟩ := h
  refine ⟨before.length, by simp, by simp, fun j hj => ?_, fun j hj hij => ?_⟩
  · rw [List.getElem_append_left hj]
    exact hbefore _ (List.getElem_mem hj)
  · obtain ⟨k, rfl⟩ := Nat.exists_eq_add_of_lt hij
    have hk : k < after.length := by
      rw [List.length_append, List.length_cons] at hj
      omega
    have hget : (before ++ x :: after)[before.length + k + 1] = after[k] := by
      rw [List.getElem_append_right (by omega)]
      simp [Nat.add_assoc]
    rw [hget]
    exact hafter _ (List.getElem_mem hk)

variable {P : α → Prop}

/-- What leads is exceeded by nothing. -/
theorem Leads.le (h : Leads value l x) (hP : Scalar.Ordered P) (hl : ∀ y ∈ l, P (value y))
    (hy : y ∈ l) : value y ≤ value x := by
  obtain ⟨before, after, rfl, hbefore, hafter⟩ := h
  have hPx : P (value x) := hl x (by simp)
  rcases List.mem_append.mp hy with hy | hy
  · exact (hP.total hPx (hl y (by simp [hy]))).resolve_left (hbefore y hy)
  · rcases List.mem_cons.mp hy with rfl | hy
    · exact (hP.total hPx hPx).elim id id
    · exact hafter y hy

theorem Leads.mem (h : Leads value l x) : x ∈ l := by
  obtain ⟨before, after, rfl, -⟩ := h
  simp

/-- An element that is not exceeded by the one that leads takes the lead in front of it. -/
theorem Leads.cons_of_le (h : Leads value l x) (hP : Scalar.Ordered P)
    (hl : ∀ z ∈ y :: l, P (value z)) (hyx : value x ≤ value y) : Leads value (y :: l) y := by
  have hl' : ∀ z ∈ l, P (value z) := fun z hz => hl z (List.mem_cons_of_mem _ hz)
  refine ⟨[], l, rfl, by simp, fun z hz => ?_⟩
  exact hP.trans (hl' z hz) (hl' x h.mem) (hl y List.mem_cons_self) (h.le hP hl' hz) hyx

/-- An element that is exceeded by the one that leads comes to stand in front of it. -/
theorem Leads.cons_of_not_le (h : Leads value l x) (hyx : ¬ value x ≤ value y) :
    Leads value (y :: l) x := by
  obtain ⟨before, after, rfl, hbefore, hafter⟩ := h
  exact ⟨y :: before, after, rfl, List.forall_mem_cons.mpr ⟨hyx, hbefore⟩, hafter⟩

/-- An element that does not exceed the one in front of it does not come to lead. -/
theorem Leads.insert (h : Leads value (x :: l) z) (hP : Scalar.Ordered P)
    (hl : ∀ w ∈ x :: y :: l, P (value w)) (hyx : value y ≤ value x) :
    Leads value (x :: y :: l) z := by
  have hPx : P (value x) := hl x (by simp)
  have hPy : P (value y) := hl y (by simp)
  obtain ⟨before, after, heq, hbefore, hafter⟩ := h
  cases before with
  | nil =>
    obtain ⟨rfl, rfl⟩ := List.cons.inj heq
    exact ⟨[], y :: l, rfl, by simp, List.forall_mem_cons.mpr ⟨hyx, hafter⟩⟩
  | cons w before =>
    obtain ⟨rfl, rfl⟩ := List.cons.inj heq
    have hzx : ¬ value z ≤ value x := hbefore x (by simp)
    have hzy : ¬ value z ≤ value y := fun hzy => hzx (hP.trans (hl z (by simp)) hPy hPx hzy hyx)
    refine ⟨x :: y :: before, after, rfl, fun w hw => ?_, hafter⟩
    rcases List.mem_cons.mp hw with rfl | hw
    · exact hzx
    · rcases List.mem_cons.mp hw with rfl | hw
      · exact hzy
      · exact hbefore w (by simp [hw])

/-! ## 3. The search and the sort -/

theorem exists_mergeSort_of_forall (hP : Scalar.Ordered P) (hall : ∀ y, P (value y))
    (hne : l ≠ []) : ∃ x rest, l.mergeSort (fun s t => decide (value t ≤ value s)) = x :: rest ∧
      Leads value l x := by
  set le : β → β → Bool := fun s t => decide (value t ≤ value s) with hle
  have htrans : ∀ a b c, le a b → le b c → le a c := fun a b c hab hbc => decide_eq_true
    (hP.trans (hall c) (hall b) (hall a) (of_decide_eq_true hbc) (of_decide_eq_true hab))
  have htotal : ∀ a b, le a b || le b a := fun a b => by
    simpa [hle] using hP.total (hall b) (hall a)
  induction l with
  | nil => exact absurd rfl hne
  | cons y l ih =>
    obtain ⟨front, back, hcons, hsort, hfront⟩ := List.mergeSort_cons htrans htotal y l
    by_cases hnil : l = []
    · subst hnil
      exact ⟨y, [], List.mergeSort_singleton y, leads_singleton y⟩
    obtain ⟨x, rest, hx, hleads⟩ := ih hnil
    rw [hx] at hsort
    -- the element in front is sorted before or after the one that leads the others
    cases front with
    | nil =>
      have hpair := List.pairwise_mergeSort htrans htotal (y :: l)
      rw [hcons, List.nil_append, ← List.nil_append back, ← hsort] at hpair
      have hyx : le y x = true := List.rel_of_pairwise_cons hpair List.mem_cons_self
      exact ⟨y, back, hcons, hleads.cons_of_le hP (fun z _ => hall z) (of_decide_eq_true hyx)⟩
    | cons v front =>
      obtain ⟨rfl, rfl⟩ := List.cons.inj hsort
      have hyx : ¬ value x ≤ value y := by simpa [hle] using hfront x List.mem_cons_self
      exact ⟨x, _, hcons, hleads.cons_of_not_le hyx⟩

theorem Leads.map {γ : Type} {f : γ → β} {k : List γ} {u : γ}
    (h : Leads (fun u => value (f u)) k u) : Leads value (k.map f) (f u) := by
  obtain ⟨before, after, rfl, hbefore, hafter⟩ := h
  exact ⟨before.map f, after.map f, by simp, List.forall_mem_map.mpr hbefore,
    List.forall_mem_map.mpr hafter⟩

/-- **A stable sort by descending value puts the element that leads first.** -/
theorem exists_mergeSort (hP : Scalar.Ordered P) (hl : ∀ y ∈ l, P (value y)) (hne : l ≠ []) :
    ∃ x rest, l.mergeSort (fun s t => decide (value t ≤ value s)) = x :: rest ∧
      Leads value l x := by
  -- sorting is understood for orders of a whole type, here that of the elements in order
  let k : List {y : β // P (value y)} := l.attachWith _ hl
  have hk : k.map Subtype.val = l := List.attachWith_map_subtype_val _
  have hkne : k ≠ [] := fun hnil => hne (by rw [← hk, hnil, List.map_nil])
  obtain ⟨x, rest, hx, hleads⟩ := exists_mergeSort_of_forall hP
    (fun y : {y : β // P (value y)} => y.2) hkne
  have hsort := List.map_mergeSort (l := k) (f := Subtype.val)
    (s := fun s t => decide (value t ≤ value s)) (fun _ _ _ _ => rfl)
  rw [hx, hk] at hsort
  exact ⟨x.1, rest.map Subtype.val, hsort.symm, hk ▸ hleads.map⟩

/-- The search for the strongest, from any name on. -/
theorem leads_foldl_stronger (hP : Scalar.Ordered P) {first : String × α} {grades : Grading α}
    (hg : ∀ g ∈ first :: grades, P g.2) :
    Leads (·.2) (first :: grades) (grades.foldl Grading.stronger first) := by
  induction grades generalizing first with
  | nil => exact leads_singleton first
  | cons next grades ih =>
    have hfirst : P first.2 := hg first (by simp)
    have hnext : P next.2 := hg next (by simp)
    rw [List.foldl_cons, Grading.stronger]
    by_cases hlt : first.2 < next.2
    · have h : Leads (·.2) (next :: grades) (grades.foldl Grading.stronger next) :=
        ih fun g hg' => hg g (List.mem_cons_of_mem _ hg')
      rw [if_pos hlt]
      refine h.cons_of_not_le fun hle => ?_
      have hmem : ∀ g ∈ next :: grades, P g.2 := fun g hg' => hg g (List.mem_cons_of_mem _ hg')
      exact (hP.lt_iff hfirst hnext).mp hlt
        (hP.trans hnext (hmem _ h.mem) hfirst (h.le hP hmem List.mem_cons_self) hle)
    · rw [if_neg hlt]
      have hle : next.2 ≤ first.2 := not_not.mp fun hle => hlt ((hP.lt_iff hfirst hnext).mpr hle)
      have hrest : ∀ g ∈ first :: grades, P g.2 := fun g hg' =>
        (List.mem_cons.mp hg').elim (fun heq => heq ▸ hfirst) fun hg' => hg g (by simp [hg'])
      have h : Leads (·.2) (first :: grades) (grades.foldl Grading.stronger first) := ih hrest
      exact h.insert hP hg hle

/-- **Where some degree is positive the strongest name leads.** -/
theorem strongest_leads (hP : Scalar.Ordered P) (hzero : P 0) {grades : Grading α}
    (hg : ∀ g ∈ grades, P g.2) (hpos : ∃ g ∈ grades, 0 < g.2) (fallback : String) :
    Leads (·.2) grades (Grading.strongest fallback grades) := by
  have hall : ∀ g ∈ (fallback, 0) :: grades, P g.2 := List.forall_mem_cons.mpr ⟨hzero, hg⟩
  obtain ⟨before, after, heq, hbefore, hafter⟩ := leads_foldl_stronger hP hall
  change _ = before ++ Grading.strongest fallback grades :: after at heq
  cases before with
  | nil =>
    obtain ⟨hfirst, rfl⟩ := List.cons.inj heq
    obtain ⟨g, hmem, hlt⟩ := hpos
    have hle : g.2 ≤ 0 := by
      have := hafter g hmem
      rwa [show grades.foldl Grading.stronger (fallback, 0) = (fallback, 0) from hfirst.symm]
        at this
    exact absurd hle ((hP.lt_iff hzero (hg g hmem)).mp hlt)
  | cons v before =>
    obtain ⟨-, hrest⟩ := List.cons.inj heq
    exact ⟨before, after, hrest, fun y hy => hbefore y (List.mem_cons_of_mem _ hy), hafter⟩

end

end Graded
