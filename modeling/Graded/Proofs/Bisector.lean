/-
# The place that halves the degrees

The bisector of a profile is the point at the one place before which the degrees come to less than
half of their sum, and up to which they come to half of it at least (`Profile.HalvesAt`).

* There is such a place as soon as some degree is positive, because the sum itself is not below its
  half (`exists_halvesAt`); and there is only one, because the sums of the first degrees never fall
  (`HalvesAt.unique`).
* The search by halving stops where its test fails first (`bisect_spec`), hence at that place
  (`bisector_eq`).  On a plateau of the running sums the first place of it is found.
* What the degrees come to grows at that place, so its degree is positive
  (`HalvesAt.exists_degree`), and no degree of 0 is ever chosen (`bisector_halves`).
-/
import Graded.Proofs.Exact
import Graded.Profile

namespace Graded

namespace Profile

variable {p : Profile ℝ} {mus : List ℝ} {i j : ℕ}

/-! ## 1. The search by halving -/

/-- **The search finds where a test starts to fail**, if it fails from there on. -/
theorem bisect_spec {test : ℕ → Bool} (h : ∀ i j, i ≤ j → test j = true → test i = true)
    {low high : ℕ} (hle : low ≤ high) :
    (low ≤ bisect test low high ∧ bisect test low high ≤ high) ∧
      (∀ i, low ≤ i → i < bisect test low high → test i = true) ∧
      ∀ i, bisect test low high ≤ i → i < high → test i = false := by
  fun_induction bisect test low high with
  | case1 low high hlt ht ih =>
    obtain ⟨hb, hbefore, hafter⟩ := ih (by omega)
    refine ⟨⟨by omega, hb.2⟩, ?_, hafter⟩
    intro i hi hib
    rcases Nat.lt_or_ge i ((low + high) / 2 + 1) with hm | hm
    · exact h i _ (by omega) ht
    · exact hbefore i hm hib
  | case2 low high hlt ht ih =>
    obtain ⟨hb, hbefore, hafter⟩ := ih (by omega)
    refine ⟨⟨hb.1, by omega⟩, hbefore, ?_⟩
    intro i hi hih
    rcases Nat.lt_or_ge i ((low + high) / 2) with hm | hm
    · exact hafter i hi hm
    · rw [Bool.eq_false_iff]
      exact fun hti => ht (h _ i hm hti)
  | case3 low high hlt => exact ⟨⟨Nat.le_refl _, hle⟩, by omega, by omega⟩

/-- The place of a number, by the entries that are smaller. -/
theorem place_eq (x : ℝ) (ascending : List ℝ) :
    place x ascending =
      bisect (fun i => ascending[i]?.any fun y => decide (y < x)) 0 ascending.length := by
  unfold place
  congr 1
  funext i
  cases ascending[i]? with
  | none => rfl
  | some y => simp [before]

/-- **A number's place in an ascending list**: all before it are smaller, none from it on is. -/
theorem place_spec {ascending : List ℝ} (h : ascending.Pairwise (· ≤ ·)) (x : ℝ) :
    place x ascending ≤ ascending.length ∧
      (∀ i y, ascending[i]? = some y → i < place x ascending → y < x) ∧
      ∀ i y, ascending[i]? = some y → place x ascending ≤ i → x ≤ y := by
  have hanti : ∀ i j : ℕ, i ≤ j → (ascending[j]?.any fun y => decide (y < x)) = true →
      (ascending[i]?.any fun y => decide (y < x)) = true := by
    intro i j hij hj
    rcases hij.eq_or_lt with rfl | hlt
    · exact hj
    · obtain ⟨y, hy, hyx⟩ := (Option.any_eq_true _ _).mp hj
      obtain ⟨hlen, rfl⟩ := List.getElem?_eq_some_iff.mp hy
      have hle : ascending[i] ≤ ascending[j] := List.pairwise_iff_getElem.mp h i j _ hlen hlt
      rw [List.getElem?_eq_getElem (hlt.trans hlen)]
      simpa using hle.trans_lt (of_decide_eq_true hyx)
  obtain ⟨hb, hbefore, hafter⟩ := bisect_spec hanti (Nat.zero_le ascending.length)
  rw [← place_eq] at hb hbefore hafter
  refine ⟨hb.2, ?_, ?_⟩
  · intro i y hy hi
    simpa [hy] using hbefore i (Nat.zero_le i) hi
  · intro i y hy hi
    simpa [hy] using hafter i hi (List.getElem?_eq_some_iff.mp hy).1

/-! ## 2. Running sums -/

/-- Running sums of degrees do not decrease. -/
theorem cumulate_pairwise (hmu : ∀ mu ∈ mus, 0 ≤ mu) (start : ℝ) :
    (Scalar.cumulate start mus).Pairwise (· ≤ ·) ∧ ∀ y ∈ Scalar.cumulate start mus, start ≤ y := by
  induction mus generalizing start with
  | nil => simp
  | cons mu mus ih =>
    have hm : 0 ≤ mu := hmu mu List.mem_cons_self
    obtain ⟨h1, h2⟩ := ih (fun nu hnu => hmu nu (List.mem_cons_of_mem _ hnu)) (start + mu)
    rw [Scalar.cumulate_cons, List.pairwise_cons]
    refine ⟨⟨h2, h1⟩, ?_⟩
    intro y hy
    rcases List.mem_cons.mp hy with rfl | hy
    · linarith
    · linarith [h2 y hy]

/-- The last running sum is the sum. -/
theorem getLast?_cumulate (start : ℝ) (h : mus ≠ []) :
    (Scalar.cumulate start mus).getLast? = some (start + mus.sum) := by
  have hl : mus.length ≠ 0 := fun h0 => h (List.length_eq_zero_iff.mp h0)
  obtain ⟨k, hk⟩ := Nat.exists_eq_succ_of_ne_zero hl
  rw [Scalar.cumulate_eq_map, hk, List.range_succ, List.map_append, List.map_singleton,
    List.getLast?_concat, ← Nat.succ_eq_add_one, ← hk, List.take_length]

theorem getElem?_cumulate (start : ℝ) (h : i < mus.length) :
    (Scalar.cumulate start mus)[i]? = some (start + (mus.take (i + 1)).sum) := by
  rw [Scalar.cumulate_eq_map, List.getElem?_map, List.getElem?_range h, Option.map_some]

theorem sum_take_mono (hmu : ∀ mu ∈ mus, 0 ≤ mu) (h : i ≤ j) :
    (mus.take i).sum ≤ (mus.take j).sum :=
  (List.take_sublist_take_left h).sum_le_sum fun mu hmem => hmu mu (List.mem_of_mem_take hmem)

/-! ## 3. Halving -/

/-- The degrees before a place come to less than half of all, and those up to it to half at
least. -/
structure HalvesAt (mus : List ℝ) (i : ℕ) : Prop where
  before : (mus.take i).sum < mus.sum / 2
  upTo : mus.sum / 2 ≤ (mus.take (i + 1)).sum

namespace HalvesAt

theorem sum_pos (h : HalvesAt mus i) (hmu : ∀ mu ∈ mus, 0 ≤ mu) : 0 < mus.sum := by
  have hnonneg : 0 ≤ (mus.take i).sum :=
    List.sum_nonneg fun mu hmem => hmu mu (List.mem_of_mem_take hmem)
  linarith [h.before]

/-- **The degree at the place is positive.** -/
theorem exists_degree (h : HalvesAt mus i) : ∃ mu, mus[i]? = some mu ∧ 0 < mu := by
  have hgrown : (mus.take (i + 1)).sum = (mus.take i).sum + (mus[i]?.toList).sum := by
    rw [List.take_add_one, List.sum_append]
  have hlt := h.before.trans_le h.upTo
  rw [hgrown] at hlt
  cases hi : mus[i]? with
  | none => simp [hi] at hlt
  | some mu => exact ⟨mu, rfl, by simpa [hi] using hlt⟩

theorem lt_length (h : HalvesAt mus i) : i < mus.length := by
  obtain ⟨mu, hi, -⟩ := h.exists_degree
  exact (List.getElem?_eq_some_iff.mp hi).1

theorem le_of_halvesAt (hi : HalvesAt mus i) (hj : HalvesAt mus j) (hmu : ∀ mu ∈ mus, 0 ≤ mu) :
    i ≤ j := by
  by_contra hlt
  have hle : (mus.take (j + 1)).sum ≤ (mus.take i).sum := sum_take_mono hmu (by omega)
  exact absurd (hj.upTo.trans hle) (not_le.mpr hi.before)

/-- **There is only one such place.** -/
theorem unique (hi : HalvesAt mus i) (hj : HalvesAt mus j) (hmu : ∀ mu ∈ mus, 0 ≤ mu) : i = j :=
  le_antisymm (hi.le_of_halvesAt hj hmu) (hj.le_of_halvesAt hi hmu)

end HalvesAt

/-- **There is such a place** where some degree is positive: the first one up to which the degrees
come to half of all. -/
theorem exists_halvesAt (hpos : 0 < mus.sum) : ∃ i, HalvesAt mus i := by
  classical
  have hreached : ∃ i, mus.sum / 2 ≤ (mus.take (i + 1)).sum := by
    refine ⟨mus.length, ?_⟩
    rw [List.take_of_length_le (Nat.le_succ _)]
    exact half_le_self hpos.le
  refine ⟨Nat.find hreached, ?_, Nat.find_spec hreached⟩
  cases hfirst : Nat.find hreached with
  | zero => simpa using half_pos hpos
  | succ k => exact not_le.mp (Nat.find_min hreached (hfirst ▸ Nat.lt_succ_self k))

/-- The search by halving comes to that place. -/
theorem place_half (hmu : ∀ mu ∈ mus, 0 ≤ mu) (h : HalvesAt mus i) :
    place (mus.sum / 2) (Scalar.cumulate 0 mus) = i := by
  obtain ⟨-, hbefore, hafter⟩ := place_spec (cumulate_pairwise hmu 0).1 (mus.sum / 2)
  set found := place (mus.sum / 2) (Scalar.cumulate 0 mus)
  have hsum : ∀ j < mus.length,
      (Scalar.cumulate 0 mus)[j]? = some (mus.take (j + 1)).sum := fun j hj => by
    rw [getElem?_cumulate 0 hj, zero_add]
  rcases lt_trichotomy found i with hlt | heq | hgt
  · -- the sum at an earlier place is not above the one before the place that halves
    have hreached := hafter found _ (hsum found (hlt.trans h.lt_length)) le_rfl
    exact absurd (hreached.trans (sum_take_mono hmu hlt)) (not_le.mpr h.before)
  · exact heq
  · exact absurd h.upTo (not_le.mpr (hbefore i _ (hsum i h.lt_length) hgt))

/-! ## 4. The bisector -/

/-- **The bisector is the point at the place that halves the degrees.** -/
theorem bisector_eq (hmu : ∀ mu ∈ p.degrees, 0 ≤ mu) (h : HalvesAt p.degrees i) {x : ℝ}
    (hx : p.points[i]? = some x) : p.bisector = .ok (.quiet x) := by
  have hs : p.degrees.sum ≠ 0 := (h.sum_pos hmu).ne'
  have hne : p.degrees ≠ [] := fun h0 => hs (by rw [h0, List.sum_nil])
  have hlast : (Scalar.cumulate 0 p.degrees).getLast? = some p.degrees.sum := by
    rw [getLast?_cumulate 0 hne, zero_add]
  rw [bisector, Scalar.total_eq_sum, if_neg (by simpa using hs)]
  simp only [hlast, Scalar.two_eq, place_half hmu h, hx]
  rfl

/-- **What the bisector is.**  Some degree being positive, there is exactly one place before which
the degrees come to less than half of their sum and up to which they come to half of it at least.
It is the place of a point, its degree is positive, and the bisector answers with that point. -/
theorem bisector_halves (hmu : ∀ mu ∈ p.degrees, 0 ≤ mu)
    (hlen : p.degrees.length = p.points.length) (hpos : ∃ mu ∈ p.degrees, 0 < mu) :
    ∃ i x mu, (∀ j, HalvesAt p.degrees j ↔ j = i) ∧ i < p.points.length ∧
      p.points[i]? = some x ∧ p.degrees[i]? = some mu ∧ 0 < mu ∧
      p.bisector = .ok (.quiet x) := by
  obtain ⟨nu, hnu, hnupos⟩ := hpos
  obtain ⟨i, hi⟩ := exists_halvesAt (hnupos.trans_le (List.single_le_sum hmu nu hnu))
  obtain ⟨mu, hdegree, hmupos⟩ := hi.exists_degree
  have hlt : i < p.points.length := hlen ▸ hi.lt_length
  have hx : p.points[i]? = some p.points[i] := List.getElem?_eq_getElem hlt
  refine ⟨i, p.points[i], mu, fun j => ⟨fun hj => hj.unique hi hmu, ?_⟩, hlt, hx, hdegree, hmupos,
    bisector_eq hmu hi hx⟩
  rintro rfl
  exact hi

/-- Between two degrees that are equal the running sums have a plateau at the half, and the bisector
is the point where it begins. -/
theorem bisector_halves_plateau :
    ∃ p : Profile ℝ, p = ⟨[0, 1, 2], [0.5, 0, 0.5]⟩ ∧ (∀ mu ∈ p.degrees, 0 ≤ mu) ∧
      p.degrees.length = p.points.length ∧ (∃ mu ∈ p.degrees, 0 < mu) ∧
      HalvesAt p.degrees 0 ∧ p.bisector = .ok (.quiet 0) := by
  set p : Profile ℝ := ⟨[0, 1, 2], [0.5, 0, 0.5]⟩ with hp
  have hmu : ∀ mu ∈ p.degrees, 0 ≤ mu := by norm_num [hp]
  have hpos : ∃ mu ∈ p.degrees, 0 < mu := ⟨0.5, by norm_num [hp]⟩
  have hzero : HalvesAt p.degrees 0 := by constructor <;> norm_num [hp]
  obtain ⟨i, x, mu, hunique, -, hx, -, -, hbisector⟩ := bisector_halves hmu rfl hpos
  obtain rfl : 0 = i := (hunique 0).mp hzero
  obtain rfl : 0 = x := by simpa [hp] using hx
  exact ⟨p, hp, hmu, rfl, hpos, hzero, hbisector⟩

end Profile
end Graded
