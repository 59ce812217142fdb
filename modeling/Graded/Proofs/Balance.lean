/-
# Where two clipped sets balance

Two sets overlap on a grid.  Each is clipped at a height, and at every point the higher of the two
counts (`joint`).  While the left set is clipped lower and lower and the right one higher and
higher, the centre of gravity moves to the right (`centre_monotoneOn`).

That is not true of any two sets: what is taken away on the left may lie to the right of the
centre.  It is true as long as the centre stays between two points such that

* what is taken away weighs at least as much left of the first as right of it, mirror image by
  mirror image, and
* what is added weighs at least as much right of the second as left of it.

Whether two points are such points is a matter of the heights of the sets at the points of the grid,
which are integers (`Balanced`); and whether the centre stays between them is a matter of the two
ends of the movement, since moments about either point only grow (`moment_monotoneOn`).
-/
import Graded.Proofs.Exact

namespace Graded.Balance

open Finset

/-! ## 1. Moments -/

/-- The points of the grid. -/
noncomputable def grid : Finset ℤ := Icc 0 100

/-- All the weight on the grid. -/
noncomputable def mass (w : ℤ → ℝ) : ℝ := ∑ i ∈ grid, w i

/-- Twice the moment of weights about half of `m`. -/
noncomputable def moment (w : ℤ → ℝ) (m : ℝ) : ℝ := ∑ i ∈ grid, w i * (2 * i - m)

/-- The centre of gravity. -/
noncomputable def centre (w : ℤ → ℝ) : ℝ := (∑ i ∈ grid, i * w i) / mass w

/-- The grid as a list. -/
theorem sum_range_eq (f : ℤ → ℝ) :
    ((List.range 101).map fun i : ℕ => f i).sum = ∑ i ∈ grid, f i := by
  change ∑ i ∈ range 101, f (i : ℤ) = _
  refine sum_nbij' (fun i : ℕ => (i : ℤ)) Int.toNat ?_ ?_ ?_ ?_ ?_
  · intro i hi
    simp only [grid, mem_range, mem_Icc] at hi ⊢
    omega
  · intro i hi
    simp only [grid, mem_range, mem_Icc] at hi ⊢
    omega
  · exact fun i _ => Int.toNat_natCast i
  · intro i hi
    simp only [grid, mem_Icc] at hi
    exact Int.toNat_of_nonneg hi.1
  · exact fun i _ => rfl

variable {w w' : ℤ → ℝ} {m : ℤ} {c c' : ℝ}

theorem moment_sub (w w' : ℤ → ℝ) (c : ℝ) :
    moment (fun i => w' i - w i) c = moment w' c - moment w c := by
  simp only [moment, sub_mul, sum_sub_distrib]

theorem moment_eq (h : mass w ≠ 0) (c : ℝ) : moment w c = (2 * centre w - c) * mass w := by
  have hc : centre w * mass w = ∑ i ∈ grid, i * w i := div_mul_cancel₀ _ h
  calc moment w c = ∑ i ∈ grid, (2 * (i * w i) - c * w i) :=
        sum_congr rfl fun i _ => by ring
    _ = 2 * ∑ i ∈ grid, i * w i - c * mass w := by
        rw [sum_sub_distrib, ← mul_sum, ← mul_sum, mass]
    _ = (2 * centre w - c) * mass w := by
        rw [← hc]
        ring

theorem le_centre_iff (h : 0 < mass w) : c ≤ 2 * centre w ↔ 0 ≤ moment w c := by
  rw [moment_eq h.ne', mul_nonneg_iff_of_pos_right h, sub_nonneg]

theorem centre_le_iff (h : 0 < mass w) : 2 * centre w ≤ c ↔ moment w c ≤ 0 := by
  rw [moment_eq h.ne', ← sub_nonpos, ← not_lt, ← not_lt, mul_pos_iff_of_pos_right h]

/-- About a point further right the moment of weights that are not negative is smaller. -/
theorem moment_anti (hw : ∀ i, 0 ≤ w i) (hc : c ≤ c') : moment w c' ≤ moment w c :=
  sum_le_sum fun i _ => mul_le_mul_of_nonneg_left (by linarith) (hw i)

/-! ## 2. Mirrored weights -/

/-- An interval around the grid that the mirror at half of `m` leaves as it is. -/
noncomputable def mirrored (m : ℤ) : Finset ℤ := Icc (-100) (m + 100)

theorem moment_eq_mirrored (h : ∀ i ∉ grid, w i = 0) (hm : 0 ≤ m) :
    moment w m = ∑ i ∈ mirrored m, w i * (2 * i - m) := by
  have hsub : grid ⊆ mirrored m := by
    intro i hi
    simp only [grid, mirrored, mem_Icc] at hi ⊢
    omega
  refine sum_subset hsub ?_
  intro i _ hi
  rw [h i hi, zero_mul]

/-- The moment of the mirror image. -/
theorem sum_mirrored (w : ℤ → ℝ) (m : ℤ) :
    ∑ i ∈ mirrored m, w i * (2 * i - m) = ∑ i ∈ mirrored m, w (m - i) * (m - 2 * i) := by
  have hmem : ∀ i ∈ mirrored m, m - i ∈ mirrored m := by
    intro i hi
    simp only [mirrored, mem_Icc] at hi ⊢
    omega
  refine sum_nbij' (m - ·) (m - ·) hmem hmem ?_ ?_ ?_
  · exact fun i _ => sub_sub_cancel m i
  · exact fun i _ => sub_sub_cancel m i
  · intro i _
    rw [sub_sub_cancel]
    push_cast
    ring

/-- **Weights that are larger on the right**, mirror image by mirror image, balance to the right. -/
theorem moment_nonneg (h : ∀ i ∉ grid, w i = 0) (hm : 0 ≤ m)
    (hw : ∀ i j, i ≤ j → i + j = m → w i ≤ w j) : 0 ≤ moment w m := by
  have htwice : 2 * moment w m = ∑ i ∈ mirrored m, (w i - w (m - i)) * (2 * i - m) := by
    calc 2 * moment w m
        = ∑ i ∈ mirrored m, w i * (2 * i - m) + ∑ i ∈ mirrored m, w (m - i) * (m - 2 * i) := by
          rw [← sum_mirrored, moment_eq_mirrored h hm, two_mul]
      _ = ∑ i ∈ mirrored m, (w i - w (m - i)) * (2 * i - m) := by
          rw [← sum_add_distrib]
          exact sum_congr rfl fun i _ => by ring
  have hsum : 0 ≤ ∑ i ∈ mirrored m, (w i - w (m - i)) * (2 * i - m) := by
    refine sum_nonneg fun i _ => ?_
    rcases le_total (2 * i) m with hi | hi
    · have hr : (2 * i : ℝ) ≤ m := mod_cast hi
      have hle : w i ≤ w (m - i) := hw i (m - i) (by omega) (by omega)
      exact mul_nonneg_of_nonpos_of_nonpos (by linarith) (by linarith)
    · have hr : (m : ℝ) ≤ 2 * i := mod_cast hi
      have hle : w (m - i) ≤ w i := hw (m - i) i (by omega) (by omega)
      exact mul_nonneg (by linarith) (by linarith)
  linarith

/-- Weights that are larger on the left balance to the left. -/
theorem moment_nonpos (h : ∀ i ∉ grid, w i = 0) (hm : 0 ≤ m)
    (hw : ∀ i j, i ≤ j → i + j = m → w j ≤ w i) : moment w m ≤ 0 := by
  have hneg : moment (fun i => -w i) m = -moment w m := by
    simp only [moment, neg_mul, sum_neg_distrib]
  have hpos : 0 ≤ moment (fun i => -w i) m :=
    moment_nonneg (fun i hi => by rw [h i hi, neg_zero]) hm
      fun i j hij hm => neg_le_neg (hw i j hij hm)
  linarith

/-! ## 3. What clipping higher adds -/

/-- What a set of height `p` gains at a point when it is clipped at `a'` and not at `a`, where
there is `q` anyway. -/
noncomputable def gain (a a' p q : ℝ) : ℝ := max (min a' p) q - max (min a p) q

section Gain

variable {a a' p p' q q' : ℝ}

theorem gain_nonneg (h : a ≤ a') : 0 ≤ gain a a' p q :=
  sub_nonneg.mpr (max_le_max (min_le_min h le_rfl) le_rfl)

theorem gain_eq (h : a ≤ a') : gain a a' p q = max 0 (min a' p - max a q) := by
  unfold gain
  rcases le_total p a with hp | hp
  · rw [min_eq_right hp, min_eq_right (hp.trans h), sub_self,
      max_eq_left (sub_nonpos.mpr (hp.trans (le_max_left a q)))]
  · rw [min_eq_left hp]
    rcases le_total (min a' p) q with hq | hq
    · have ha : a ≤ q := (le_min h hp).trans hq
      rw [max_eq_right hq, max_eq_right ha, sub_self, max_eq_left (sub_nonpos.mpr hq)]
    · rw [max_eq_left hq, max_eq_right (sub_nonneg.mpr (max_le (le_min h hp) hq))]

/-- The higher a set is and the less there is anyway, the more it gains. -/
theorem gain_mono (h : a ≤ a') (hp : p ≤ p') (hq : q' ≤ q) : gain a a' p q ≤ gain a a' p' q' := by
  rw [gain_eq h, gain_eq h]
  exact max_le_max le_rfl (sub_le_sub (min_le_min le_rfl hp) (max_le_max le_rfl hq))

/-- Nothing is gained where the set was not clipped. -/
theorem gain_of_le (h : a ≤ a') (hp : p ≤ a) : gain a a' p q = 0 := by
  rw [gain_eq h, max_eq_left]
  exact sub_nonpos.mpr ((min_le_right a' p).trans (hp.trans (le_max_left a q)))

/-- Nothing is gained where the set does not get higher than what is there. -/
theorem gain_of_ge (h : a ≤ a') (hq : min a' p ≤ q) : gain a a' p q = 0 := by
  rw [gain_eq h, max_eq_left (sub_nonpos.mpr (hq.trans (le_max_right a q)))]

end Gain

/-- A set of height `p` beside one of height `q` gains at most what it gains where the heights are
`p'` and `q'`, if it is clipped between `lo` and `hi` and the other not below `other`: it is
lower there beside a higher one, or it is never clipped, or it is always below the other. -/
def Yields (lo hi other p q p' q' : ℤ) : Prop :=
  p ≤ p' ∧ q' ≤ q ∨ p ≤ lo ∨ min hi p ≤ min other q

theorem Yields.gain_le {lo hi other p q p' q' : ℤ} (h : Yields lo hi other p q p' q')
    {a a' b : ℝ} (ha : lo ≤ a) (haa : a ≤ a') (ha' : a' ≤ hi) (hb : other ≤ b) :
    gain a a' p (min b q) ≤ gain a a' p' (min b q') := by
  rcases h with ⟨hp, hq⟩ | hp | hq
  · exact gain_mono haa (mod_cast hp) (min_le_min le_rfl (mod_cast hq))
  · rw [gain_of_le haa ((Int.cast_le.mpr hp).trans ha)]
    exact gain_nonneg haa
  · have hcast : min (hi : ℝ) p ≤ min (other : ℝ) q := mod_cast hq
    rw [gain_of_ge haa]
    · exact gain_nonneg haa
    · exact (min_le_min ha' le_rfl).trans (hcast.trans (min_le_min hb le_rfl))

/-! ## 4. Two clipped sets -/

/-- A set on the left and a set on the right by their heights on the grid, the bounds between which
each is clipped, and twice the two points between which the centre has to stay. -/
structure Piece where
  left : ℤ → ℤ
  right : ℤ → ℤ
  leftLow : ℤ
  leftHigh : ℤ
  rightLow : ℤ
  rightHigh : ℤ
  near : ℤ
  far : ℤ

namespace Piece

/-- The two sets clipped at `a` and `b`, joined by their maximum. -/
noncomputable def joint (p : Piece) (a b : ℝ) (i : ℤ) : ℝ :=
  max (min a (p.left i)) (min b (p.right i))

/-- The sets are clipped within the bounds. -/
def Admits (p : Piece) (a b : ℝ) : Prop :=
  a ∈ Set.Icc (p.leftLow : ℝ) p.leftHigh ∧ b ∈ Set.Icc (p.rightLow : ℝ) p.rightHigh

/-- What the left set loses is balanced left of the near point, and what the right set gains right
of the far point. -/
structure Balanced (p : Piece) : Prop where
  leftLow_nonneg : 0 ≤ p.leftLow
  rightLow_nonneg : 0 ≤ p.rightLow
  near_nonneg : 0 ≤ p.near
  near_le_far : p.near ≤ p.far
  outside : ∀ i, i < 0 ∨ 100 < i → p.left i = 0 ∧ p.right i = 0
  removed : ∀ i j, i ≤ j → i + j = p.near →
    Yields p.leftLow p.leftHigh p.rightLow (p.left j) (p.right j) (p.left i) (p.right i)
  added : ∀ i j, i ≤ j → i + j = p.far →
    Yields p.rightLow p.rightHigh p.leftLow (p.right i) (p.left i) (p.right j) (p.left j)

variable {p : Piece} {a a' b b' c : ℝ}

/-- Off the grid there is nothing to clip. -/
theorem Balanced.eq_zero (h : p.Balanced) {i : ℤ} (hi : i ∉ grid) :
    p.left i = 0 ∧ p.right i = 0 := by
  refine h.outside i ?_
  simp only [grid, mem_Icc, not_and_or, not_le] at hi
  exact hi

/-- **Clipping the left set lower** moves the weight to the right. -/
theorem moment_left (h : p.Balanced) (hab : p.Admits a b) (hab' : p.Admits a' b) (haa : a' ≤ a)
    (hc : p.near ≤ c) : moment (p.joint a b) c ≤ moment (p.joint a' b) c := by
  set w : ℤ → ℝ := fun i => p.joint a b i - p.joint a' b i with hw
  have hgain : ∀ i, w i = gain a' a (p.left i) (min b (p.right i)) := fun i => rfl
  have hnear : moment w p.near ≤ 0 := by
    refine moment_nonpos ?_ h.near_nonneg ?_
    · intro i hi
      have h0 : (p.left i : ℝ) ≤ a' := by
        rw [(h.eq_zero hi).1]
        exact (Int.cast_le.mpr h.leftLow_nonneg).trans hab'.1.1
      rw [hgain, gain_of_le haa h0]
    · intro i j hij hm
      rw [hgain, hgain]
      exact (h.removed i j hij hm).gain_le hab'.1.1 haa hab.1.2 hab.2.1
  have hle : moment w c ≤ moment w p.near :=
    moment_anti (fun i => (hgain i).symm ▸ gain_nonneg haa) hc
  have hsub := moment_sub (p.joint a' b) (p.joint a b) c
  linarith

/-- **Clipping the right set higher** moves the weight to the right. -/
theorem moment_right (h : p.Balanced) (hab : p.Admits a b) (hab' : p.Admits a b') (hbb : b ≤ b')
    (hc : c ≤ p.far) : moment (p.joint a b) c ≤ moment (p.joint a b') c := by
  set w : ℤ → ℝ := fun i => p.joint a b' i - p.joint a b i with hw
  have hgain : ∀ i, w i = gain b b' (p.right i) (min a (p.left i)) := by
    intro i
    simp only [hw, joint, gain, max_comm]
  have hfar : 0 ≤ moment w p.far := by
    refine moment_nonneg ?_ (h.near_nonneg.trans h.near_le_far) ?_
    · intro i hi
      have h0 : (p.right i : ℝ) ≤ b := by
        rw [(h.eq_zero hi).2]
        exact (Int.cast_le.mpr h.rightLow_nonneg).trans hab.2.1
      rw [hgain, gain_of_le hbb h0]
    · intro i j hij hm
      rw [hgain, hgain]
      exact (h.added i j hij hm).gain_le hab.2.1 hbb hab'.2.2 hab.1.1
  have hle : moment w p.far ≤ moment w c :=
    moment_anti (fun i => (hgain i).symm ▸ gain_nonneg hbb) hc
  have hsub := moment_sub (p.joint a b) (p.joint a b') c
  linarith

/-- Clipped at integers the sets have an integral moment. -/
theorem moment_joint_cast (p : Piece) (a b m : ℤ) : moment (p.joint a b) m =
    ((∑ i ∈ Icc (0 : ℤ) 100,
      max (min a (p.left i)) (min b (p.right i)) * (2 * i - m) : ℤ) : ℝ) := by
  simp only [moment, joint, grid]
  push_cast
  rfl

/-- **Moments only grow** while the left set is clipped lower and the right one higher. -/
theorem moment_monotoneOn {l r : ℝ → ℝ} {S : Set ℝ} (h : p.Balanced) (hl : Antitone l)
    (hr : Monotone r) (hS : ∀ s ∈ S, p.Admits (l s) (r s))
    (hc : c ∈ Set.Icc (p.near : ℝ) p.far) :
    MonotoneOn (fun s => moment (p.joint (l s) (r s)) c) S := by
  intro s hs t ht hst
  have hmid : p.Admits (l t) (r s) := ⟨(hS t ht).1, (hS s hs).2⟩
  exact (moment_left h (hS s hs) hmid (hl hst) hc.1).trans
    (moment_right h hmid (hS t ht) (hr hst) hc.2)

end Piece

/-! ## 5. The centre of gravity -/

/-- The grid is its own mirror image. -/
theorem sum_grid_mirror (f : ℤ → ℝ) : ∑ i ∈ grid, f i = ∑ i ∈ grid, f (100 - i) := by
  have hmem : ∀ i ∈ grid, 100 - i ∈ grid := by
    intro i hi
    simp only [grid, mem_Icc] at hi ⊢
    omega
  refine sum_nbij' (100 - ·) (100 - ·) hmem hmem ?_ ?_ ?_
  · exact fun i _ => sub_sub_cancel 100 i
  · exact fun i _ => sub_sub_cancel 100 i
  · exact fun i _ => by rw [sub_sub_cancel]

/-- **The centre of the mirror image** is the mirror image of the centre. -/
theorem centre_mirror (h : ∀ i, w' (100 - i) = w i) (hw : mass w ≠ 0) :
    centre w' = 100 - centre w := by
  have hmass : mass w' = mass w := by
    rw [mass, sum_grid_mirror]
    exact sum_congr rfl fun i _ => h i
  have hmoment : ∑ i ∈ grid, i * w' i = 100 * mass w - ∑ i ∈ grid, i * w i := by
    rw [sum_grid_mirror, mass, mul_sum, ← sum_sub_distrib]
    refine sum_congr rfl fun i _ => ?_
    rw [h]
    push_cast
    ring
  rw [centre, hmass, hmoment, sub_div, mul_div_assoc, div_self hw, mul_one, centre]

/-- **The centre moves to the right** as long as it stays where moments only grow. -/
theorem centre_monotoneOn {W : ℝ → ℤ → ℝ} {S : Set ℝ} {near far : ℝ}
    (hmono : ∀ c ∈ Set.Icc near far, MonotoneOn (fun s => moment (W s) c) S)
    (hpos : ∀ s ∈ S, 0 < mass (W s)) (hnear : ∀ s ∈ S, 0 ≤ moment (W s) near)
    (hfar : ∀ s ∈ S, moment (W s) far ≤ 0) : MonotoneOn (fun s => centre (W s)) S := by
  intro s hs t ht hst
  have hc : 2 * centre (W s) ∈ Set.Icc near far :=
    ⟨(le_centre_iff (hpos s hs)).mpr (hnear s hs), (centre_le_iff (hpos s hs)).mpr (hfar s hs)⟩
  have h0 : 0 ≤ moment (W s) (2 * centre (W s)) := (le_centre_iff (hpos s hs)).mp le_rfl
  have hle : 2 * centre (W s) ≤ 2 * centre (W t) :=
    (le_centre_iff (hpos t ht)).mpr (h0.trans (hmono _ hc hs ht hst))
  exact le_of_mul_le_mul_left hle two_pos

end Graded.Balance
