/-
# Slopes that tile the line

The shapes of a family stand side by side: a falling shoulder, triangles, and a rising shoulder.
Each of them begins to rise where the one before has begun to fall, and is up where that one is
down (`Tiles`).  This is a condition on neighbours, and four facts about all shapes of a family
that `Covers` the line follow from it, at every number:

* of two shapes the later one weighs ever more in proportion to the earlier one
  (`Covers.pairwise_outweighed`);
* so a shape that has overtaken an earlier one stays ahead of it for as long as there is anything of
  that one (`Covers.pairwise_overtaken`);
* two shapes that are both positive are neighbours (`Covers.eq_succ_of_pos`);
* some shape reaches the height at which neighbours cross (`Covers.exists_height`).
-/
import Graded.Proofs.Shape

namespace Graded

/-! ## 1. One slope -/

/-- From `p` on the function is a slope that falls to 0 at `q`. -/
structure FallsTo (p q : ℝ) (f : ℝ → ℝ) : Prop where
  width : p < q
  nonneg : ∀ x, 0 ≤ f x
  eq_fall : ∀ x, p ≤ x → f x = Scalar.clamp (Shape.fall p q x)

/-- Up to `b` the function is a slope that rises from 0 at `a`. -/
structure RisesFrom (a b : ℝ) (g : ℝ → ℝ) : Prop where
  width : a < b
  eq_rise : ∀ x, x ≤ b → g x = Scalar.clamp (Shape.rise a b x)

variable {a b c h p q x : ℝ} {f g : ℝ → ℝ}

theorem Shape.degree_nonneg (s : Shape ℝ) (x : ℝ) : 0 ≤ s.degree x := (Scalar.clamp_mem _).1

theorem fallsTo_leftShoulder (h : p < q) : FallsTo p q (Shape.leftShoulder p q).degree :=
  ⟨h, Shape.degree_nonneg _, fun x _ => Shape.degree_leftShoulder h x⟩

theorem risesFrom_rightShoulder (h : a < b) : RisesFrom a b (Shape.rightShoulder a b).degree :=
  ⟨h, fun x _ => Shape.degree_rightShoulder h x⟩

theorem fallsTo_triangular (hab : a < b) (hbc : b < c) :
    FallsTo b c (Shape.triangular a b c).degree := by
  refine ⟨hbc, Shape.degree_nonneg _, fun x hx => ?_⟩
  rw [Shape.degree_triangular hab hbc, Shape.degree_rightShoulder hab,
    Shape.degree_leftShoulder hbc, Scalar.clamp_of_one_le ((Shape.one_le_rise_iff hab).mpr hx)]
  exact min_eq_right (Scalar.clamp_mem _).2

theorem risesFrom_triangular (hab : a < b) (hbc : b < c) :
    RisesFrom a b (Shape.triangular a b c).degree := by
  refine ⟨hab, fun x hx => ?_⟩
  rw [Shape.degree_triangular hab hbc, Shape.degree_rightShoulder hab,
    Shape.degree_leftShoulder hbc, Scalar.clamp_of_one_le ((Shape.one_le_fall_iff hbc).mpr hx)]
  exact min_eq_left (Scalar.clamp_mem _).2

theorem FallsTo.eq_zero (hf : FallsTo p q f) (hx : q ≤ x) : f x = 0 := by
  rw [hf.eq_fall x (hf.width.le.trans hx)]
  exact Scalar.clamp_of_nonpos ((Shape.fall_nonpos_iff hf.width).mpr hx)

theorem FallsTo.antitoneOn (hf : FallsTo p q f) : AntitoneOn f (Set.Ici p) := by
  intro x hx y hy hxy
  rw [hf.eq_fall x hx, hf.eq_fall y hy]
  exact Scalar.clamp_mono (Shape.fall_anti hf.width hxy)

theorem RisesFrom.eq_zero (hg : RisesFrom a b g) (hx : x ≤ a) : g x = 0 := by
  rw [hg.eq_rise x (hx.trans hg.width.le)]
  exact Scalar.clamp_of_nonpos ((Shape.rise_nonpos_iff hg.width).mpr hx)

theorem RisesFrom.monotoneOn (hg : RisesFrom a b g) : MonotoneOn g (Set.Iic b) := by
  intro x hx y hy hxy
  rw [hg.eq_rise x hx, hg.eq_rise y hy]
  exact Scalar.clamp_mono (Shape.rise_mono hg.width hxy)

/-! ## 2. Two slopes that cross -/

/-- In proportion to `f` there is ever more of `g`. -/
def Outweighed (f g : ℝ → ℝ) : Prop := ∀ x y, x ≤ y → g x * f y ≤ f x * g y

/-- What has overtaken `f` stays ahead of it, until there is nothing of `f` any more. -/
def Overtaken (f g : ℝ → ℝ) : Prop := ∀ x y, x ≤ y → f x < g x → f y = 0 ∨ f y < g y

theorem Outweighed.overtaken (h : Outweighed f g) (hf : ∀ x, 0 ≤ f x) : Overtaken f g := by
  intro x y hxy hlt
  rcases (hf y).eq_or_lt with hzero | hpos
  · exact .inl hzero.symm
  right
  by_contra hle
  have hmul : g x * f y ≤ f x * f y :=
    (h x y hxy).trans (mul_le_mul_of_nonneg_left (not_lt.mp hle) (hf x))
  exact hlt.not_ge (le_of_mul_le_mul_right hmul hpos)

/-- What does not begin before a slope is down outweighs it. -/
theorem FallsTo.outweighed_of_later (hf : FallsTo p q f) (hg : ∀ x, 0 ≤ g x)
    (hlater : ∀ x, x ≤ q → g x = 0) : Outweighed f g := by
  intro x y hxy
  have hnonneg : 0 ≤ f x * g y := mul_nonneg (hf.nonneg x) (hg y)
  rcases le_or_gt q y with hy | hy
  · rwa [hf.eq_zero hy, mul_zero]
  · rwa [hlater x (hxy.trans hy.le), zero_mul]

/-- A slope that begins to rise on a falling one and is up where that one is down outweighs it. -/
theorem FallsTo.outweighed_of_risesFrom (hf : FallsTo p q f) (hg : ∀ x, 0 ≤ g x)
    (hrises : RisesFrom a b g) (hpa : p ≤ a) (hqb : q ≤ b) : Outweighed f g := by
  intro x y hxy
  have hnonneg : 0 ≤ f x * g y := mul_nonneg (hf.nonneg x) (hg y)
  rcases le_or_gt q y with hy | hy
  · rwa [hf.eq_zero hy, mul_zero]
  rcases le_or_gt x a with hx | hx
  · rwa [hrises.eq_zero hx, zero_mul]
  -- between the begin of one slope and the end of the other both of them move
  have hpx : p ≤ x := hpa.trans hx.le
  have hyb : y ≤ b := hy.le.trans hqb
  have hrise : g x ≤ g y := hrises.monotoneOn (hxy.trans hyb) hyb hxy
  have hfall : f y ≤ f x := hf.antitoneOn hpx (hpx.trans hxy) hxy
  calc g x * f y ≤ g y * f x := mul_le_mul hrise hfall (hf.nonneg y) (hg y)
    _ = f x * g y := mul_comm _ _

/-- Between the two peaks one of the slopes is at least as high as they are where they cross: the
widths of the slopes, weighted by their heights, make up the width on which they overlap. -/
theorem FallsTo.crossing_le (hf : FallsTo p q f) (hg : RisesFrom a b g)
    (hh : h * ((q - p) + (b - a)) ≤ q - a) (hpx : p ≤ x) (hxb : x ≤ b) : h ≤ f x ∨ h ≤ g x := by
  by_contra hlow
  obtain ⟨hfx, hgx⟩ := not_or.mp hlow
  have hwf : 0 < q - p := sub_pos.mpr hf.width
  have hwg : 0 < b - a := sub_pos.mpr hg.width
  have hfall : q - x < h * (q - p) := by
    rw [hf.eq_fall x hpx, Scalar.clamp_eq] at hfx
    have hlt : min 1 (Shape.fall p q x) < h := (le_max_right _ _).trans_lt (not_le.mp hfx)
    rw [min_eq_right (by rw [Shape.fall, div_le_one hwf]; linarith), Shape.fall,
      div_lt_iff₀ hwf] at hlt
    exact hlt
  have hrise : x - a < h * (b - a) := by
    rw [hg.eq_rise x hxb, Scalar.clamp_eq] at hgx
    have hlt : min 1 (Shape.rise a b x) < h := (le_max_right _ _).trans_lt (not_le.mp hgx)
    rw [min_eq_right (by rw [Shape.rise, div_le_one hwg]; linarith), Shape.rise,
      div_lt_iff₀ hwg] at hlt
    exact hlt
  linarith

/-! ## 3. Families of slopes -/

/-- The shapes go on, one after the other, from a slope that falls between `p` and `q`, and
neighbours cross no lower than `h`. -/
inductive Tiles (h : ℝ) : ℝ → ℝ → List (Shape ℝ) → Prop where
  | last {p q a b : ℝ} (width : a < b) (begins : p ≤ a) (tops : q ≤ b)
      (crossing : h * ((q - p) + (b - a)) ≤ q - a) : Tiles h p q [.rightShoulder a b]
  | next {p q a b c : ℝ} {rest : List (Shape ℝ)} (left : a < b) (right : b < c) (begins : p ≤ a)
      (tops : q ≤ b) (crossing : h * ((q - p) + (b - a)) ≤ q - a) (others : Tiles h b c rest) :
      Tiles h p q (.triangular a b c :: rest)

namespace Tiles

variable {s t : Shape ℝ} {shapes : List (Shape ℝ)}

/-- Nothing begins before the slope in front begins to fall. -/
theorem eq_zero (ht : Tiles h p q shapes) (hs : s ∈ shapes) (hx : x ≤ p) : s.degree x = 0 := by
  induction ht with
  | last width begins =>
    obtain rfl := List.mem_singleton.mp hs
    exact (risesFrom_rightShoulder width).eq_zero (hx.trans begins)
  | next left right begins _ _ _ ih =>
    rcases List.mem_cons.mp hs with rfl | hs
    · exact (risesFrom_triangular left right).eq_zero (hx.trans begins)
    · exact ih hs ((hx.trans begins).trans left.le)

/-- The slope in front is outweighed by all that come after it. -/
theorem outweighed (ht : Tiles h p q shapes) (hf : FallsTo p q f) (hs : s ∈ shapes) :
    Outweighed f s.degree := by
  cases ht with
  | last width begins tops =>
    obtain rfl := List.mem_singleton.mp hs
    exact hf.outweighed_of_risesFrom (Shape.degree_nonneg _) (risesFrom_rightShoulder width) begins
      tops
  | next left right begins tops _ rest =>
    rcases List.mem_cons.mp hs with rfl | hs
    · exact hf.outweighed_of_risesFrom (Shape.degree_nonneg _) (risesFrom_triangular left right)
        begins tops
    · exact hf.outweighed_of_later (Shape.degree_nonneg _) fun x hx =>
        rest.eq_zero hs (hx.trans tops)

theorem pairwise_outweighed (ht : Tiles h p q shapes) :
    shapes.Pairwise fun s t => Outweighed s.degree t.degree := by
  induction ht with
  | last => exact List.pairwise_singleton _ _
  | next left right _ _ _ rest ih =>
    exact List.pairwise_cons.mpr
      ⟨fun t ht => rest.outweighed (fallsTo_triangular left right) ht, ih⟩

/-- What crosses no lower than `h` crosses no lower than anything below `h`. -/
theorem anti {h' : ℝ} (ht : Tiles h p q shapes) (hpq : p < q) (hle : h' ≤ h) :
    Tiles h' p q shapes := by
  induction ht with
  | last width begins tops crossing =>
    refine .last width begins tops (le_trans ?_ crossing)
    exact mul_le_mul_of_nonneg_right hle (by linarith)
  | next left right begins tops crossing _ ih =>
    refine .next left right begins tops (le_trans ?_ crossing) (ih right)
    exact mul_le_mul_of_nonneg_right hle (by linarith)

/-- From where the slope in front begins to fall there is always something as high as the
crossings. -/
theorem exists_height (ht : Tiles h p q shapes) (hf : FallsTo p q f) (hh : h ≤ 1) (hx : p ≤ x) :
    h ≤ f x ∨ ∃ s ∈ shapes, h ≤ s.degree x := by
  induction ht generalizing f with
  | @last p q a b width begins tops crossing =>
    rcases le_or_gt x b with hxb | hbx
    · exact (hf.crossing_le (risesFrom_rightShoulder width) crossing hx hxb).imp_right
        fun h => ⟨_, List.mem_singleton_self _, h⟩
    · have hone : (Shape.rightShoulder a b).degree x = 1 := by
        rw [Shape.degree_rightShoulder width,
          Scalar.clamp_of_one_le ((Shape.one_le_rise_iff width).mpr hbx.le)]
      exact .inr ⟨_, List.mem_singleton_self _, hone ▸ hh⟩
  | @next p q a b c rest left right begins tops crossing _ ih =>
    rcases le_or_gt x b with hxb | hbx
    · exact (hf.crossing_le (risesFrom_triangular left right) crossing hx hxb).imp_right
        fun h => ⟨_, List.mem_cons_self, h⟩
    · rcases ih (fallsTo_triangular left right) hbx.le with h | ⟨s, hs, h⟩
      · exact .inr ⟨_, List.mem_cons_self, h⟩
      · exact .inr ⟨s, List.mem_cons_of_mem _ hs, h⟩

/-- The shapes that are positive at a number are neighbours, the slope in front counted as one. -/
theorem eq_succ_of_pos (ht : Tiles h p q shapes) (hs : FallsTo p q s.degree) {i j : ℕ}
    (hi : i < (s :: shapes).length) (hj : j < (s :: shapes).length) (hij : i < j)
    (hpi : 0 < (s :: shapes)[i].degree x) (hpj : 0 < (s :: shapes)[j].degree x) : j = i + 1 := by
  obtain ⟨j, rfl⟩ := Nat.exists_eq_succ_of_ne_zero (Nat.ne_zero_of_lt hij)
  rw [List.getElem_cons_succ] at hpj
  induction ht generalizing s i j with
  | last =>
    simp only [List.length_cons, List.length_nil] at hj
    omega
  | @next p q a b c rest left right begins tops crossing others ih =>
    cases i with
    | succ i =>
      obtain ⟨j, rfl⟩ := Nat.exists_eq_succ_of_ne_zero (n := j) (by omega)
      rw [ih (fallsTo_triangular left right) (by simpa using hi) hpi j (by simpa using hj)
        (by omega) hpj]
    | zero =>
      cases j with
      | zero => rfl
      | succ j =>
        have hxq : x ≤ q := by
          by_contra hxq
          exact hpi.ne' (hs.eq_zero (not_le.mp hxq).le)
        rw [List.getElem_cons_succ, others.eq_zero (List.getElem_mem _) (hxq.trans tops)] at hpj
        exact absurd hpj (lt_irrefl 0)

end Tiles

/-- The shapes of a family cover the line: a shoulder that falls, and what goes on from it. -/
inductive Covers (h : ℝ) : List (Shape ℝ) → Prop where
  | intro {p q : ℝ} {shapes : List (Shape ℝ)} (width : p < q) (others : Tiles h p q shapes) :
      Covers h (.leftShoulder p q :: shapes)

namespace Covers

variable {shapes : List (Shape ℝ)}

theorem anti {h' : ℝ} (hc : Covers h shapes) (hle : h' ≤ h) : Covers h' shapes := by
  obtain ⟨width, others⟩ := hc
  exact .intro width (others.anti width hle)

/-- **Later shapes outweigh earlier ones more and more.** -/
theorem pairwise_outweighed (hc : Covers h shapes) :
    shapes.Pairwise fun s t => Outweighed s.degree t.degree := by
  obtain ⟨width, others⟩ := hc
  exact List.pairwise_cons.mpr
    ⟨fun t ht => others.outweighed (fallsTo_leftShoulder width) ht, others.pairwise_outweighed⟩

/-- So they overtake them once and for all. -/
theorem pairwise_overtaken (hc : Covers h shapes) :
    shapes.Pairwise fun s t => Overtaken s.degree t.degree :=
  hc.pairwise_outweighed.imp fun hst => hst.overtaken (Shape.degree_nonneg _)

/-- **Shapes that are positive together are neighbours**, so there are at most two of them. -/
theorem eq_succ_of_pos (hc : Covers h shapes) {i j : ℕ} (hi : i < shapes.length)
    (hj : j < shapes.length) (hij : i < j) (hpi : 0 < shapes[i].degree x)
    (hpj : 0 < shapes[j].degree x) : j = i + 1 := by
  obtain ⟨width, others⟩ := hc
  exact others.eq_succ_of_pos (fallsTo_leftShoulder width) hi hj hij hpi hpj

/-- So what is positive at a number are some shape and the next, and no other. -/
theorem exists_neighbours (hc : Covers h shapes) (x : ℝ) :
    ∃ i, ∀ j (hj : j < shapes.length), 0 < shapes[j].degree x → j = i ∨ j = i + 1 := by
  classical
  by_cases hpos : ∃ i, ∃ hi : i < shapes.length, 0 < shapes[i].degree x
  · obtain ⟨hi, hpi⟩ := Nat.find_spec hpos
    refine ⟨Nat.find hpos, fun j hj hpj => ?_⟩
    rcases (Nat.find_min' hpos ⟨hj, hpj⟩).eq_or_lt with heq | hlt
    · exact .inl heq.symm
    · exact .inr (hc.eq_succ_of_pos hi hj hlt hpi hpj)
  · exact ⟨0, fun j hj hpj => absurd ⟨j, hj, hpj⟩ hpos⟩

/-- **There are no gaps**: at every number some shape is as high as the lowest crossing. -/
theorem exists_height (hc : Covers h shapes) (hh : h ≤ 1) (x : ℝ) :
    ∃ s ∈ shapes, h ≤ s.degree x := by
  obtain @⟨p, q, shapes, width, others⟩ := hc
  rcases le_or_gt x p with hx | hx
  · have hone : (Shape.leftShoulder p q).degree x = 1 := by
      rw [Shape.degree_leftShoulder width,
        Scalar.clamp_of_one_le ((Shape.one_le_fall_iff width).mpr hx)]
    exact ⟨_, List.mem_cons_self, hone ▸ hh⟩
  · rcases others.exists_height (fallsTo_leftShoulder width) hh hx.le with h | ⟨s, hs, h⟩
    · exact ⟨_, List.mem_cons_self, h⟩
    · exact ⟨s, List.mem_cons_of_mem _ hs, h⟩

end Covers

end Graded
