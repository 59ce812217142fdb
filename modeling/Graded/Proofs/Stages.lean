/-
# Through the bands of similarity

What the rules from similarity to confidence support is a list of weights at the hundredths
(`Band.weights`): five clipped sets, of which at most two are not clipped at 0.  The centre of these
weights never moves to the left while the similarity grows (`centre_weights_mono`).

A similarity rises to the middle of its domain in four stages (`Stage`).  In each the left one of
two sets is clipped lower and the right one higher, they are balanced (`Stage.balanced`), and the
centre stays between the two points of the stage (`moment_near_nonneg`, `moment_far_nonpos`).  That
has to be computed at the ends of stages only, where one of the sets is left alone.  Beyond the
middle everything is the mirror image of that (`centre_weights_mirror`).
-/
import Graded.Proofs.Balance
import Graded.Proofs.Bands

namespace Graded

open Balance

/-! ## 1. Weights -/

namespace Band

/-- The bands in the order of their rules. -/
def all : List Band := [full, strong, half, weak, no]

/-- What the rules support at the hundredths, in sixtieths. -/
noncomputable def weights (s : ℝ) (i : ℤ) : ℝ :=
  all.foldl (fun mu k => max mu (min (k.strength s) (k.height i))) 0

theorem weights_eq (s : ℝ) (i : ℤ) : weights s i =
    max (max (max (max (max 0 (min (full.strength s) (full.height i)))
      (min (strong.strength s) (strong.height i))) (min (half.strength s) (half.height i)))
        (min (weak.strength s) (weak.height i))) (min (no.strength s) (no.height i)) := rfl

theorem weights_nonneg (s : ℝ) (i : ℤ) : 0 ≤ weights s i := by
  rw [weights_eq]
  simp only [le_max_iff, le_refl, true_or]

/-- Every rule contributes. -/
theorem le_weights (k : Band) (s : ℝ) (i : ℤ) :
    min (k.strength s) (k.height i : ℝ) ≤ weights s i := by
  rw [weights_eq]
  cases k <;> simp only [le_max_iff, le_refl, true_or, or_true]

theorem weights_mirror (s : ℝ) (i : ℤ) : weights (1.1 - s) (100 - i) = weights s i := by
  have hk : ∀ k : Band, min (k.mirror.strength (1.1 - s)) (k.mirror.height (100 - i) : ℝ) =
      min (k.strength s) (k.height i) := by
    intro k
    rw [strength_mirror, height_mirror]
  rw [weights_eq, weights_eq, ← hk full, ← hk strong, ← hk half, ← hk weak, ← hk no]
  simp only [mirror]
  ac_rfl

theorem mass_weights_pos (s : ℝ) : 0 < mass (weights s) := by
  obtain ⟨k, hk⟩ := exists_fires s
  obtain ⟨i, h0, h1, hi⟩ := k.exists_height
  refine Finset.sum_pos' (fun j _ => weights_nonneg s j) ⟨i, Finset.mem_Icc.mpr ⟨h0, h1⟩, ?_⟩
  refine lt_of_lt_of_le (lt_min hk ?_) (le_weights k s i)
  rw [hi]
  norm_num

/-- Beyond the middle of the domain the centre moves as before it. -/
theorem centre_weights_mirror (s : ℝ) :
    centre (weights (1.1 - s)) = 100 - centre (weights s) :=
  centre_mirror (weights_mirror s) (mass_weights_pos s).ne'

/-! ## 2. Two rules at a time -/

/-- A rule that does not fire contributes nothing. -/
theorem min_eq_zero {k : Band} {s : ℝ} (h : k.strength s = 0) (i : ℤ) :
    min (k.strength s) (k.height i : ℝ) = 0 := by
  rw [h, min_eq_left (Int.cast_nonneg (k.height_nonneg i))]

/-- Up to 0.35 only the two lowest rules fire. -/
theorem weights_low {s : ℝ} (h : s ≤ 0.35) (i : ℤ) : weights s i =
    max (min (fallTo 0.3 s) (no.height i)) (min (riseFrom 0.2 s) (weak.height i)) := by
  have hfull : full.strength s = 0 := riseFrom_eq_zero (by linarith)
  have hstrong : strong.strength s = 0 := strength_eq_zero_of_le (by linarith)
  have hhalf : half.strength s = 0 := strength_eq_zero_of_le (by linarith)
  have hweak : weak.strength s = riseFrom 0.2 s := by
    rw [strength, fallTo_eq_sixty (by linarith), min_eq_left (riseFrom_le_sixty _ _)]
  have h0 : (0 : ℝ) ≤ min (riseFrom 0.2 s) (weak.height i) :=
    le_min (riseFrom_nonneg _ _) (Int.cast_nonneg (weak.height_nonneg i))
  rw [weights_eq, min_eq_zero hfull, min_eq_zero hstrong, min_eq_zero hhalf, hweak, max_self,
    max_self, max_self, max_eq_right h0, max_comm, strength]

/-- From there to the middle only the two bands next to it. -/
theorem weights_middle {s : ℝ} (h : 0.35 ≤ s) (h' : s ≤ 0.55) (i : ℤ) : weights s i =
    max (min (fallTo 0.5 s) (weak.height i)) (min (riseFrom 0.4 s) (half.height i)) := by
  have hfull : full.strength s = 0 := riseFrom_eq_zero (by linarith)
  have hstrong : strong.strength s = 0 := strength_eq_zero_of_le (by linarith)
  have hno : no.strength s = 0 := fallTo_eq_zero (by linarith)
  have hhalf : half.strength s = riseFrom 0.4 s := by
    rw [strength, fallTo_eq_sixty (by linarith), min_eq_left (riseFrom_le_sixty _ _)]
  have hweak : weak.strength s = fallTo 0.5 s := by
    rw [strength, riseFrom_eq_sixty (by linarith), min_eq_right (fallTo_le_sixty _ _)]
  have h0 : (0 : ℝ) ≤ min (riseFrom 0.4 s) (half.height i) :=
    le_min (riseFrom_nonneg _ _) (Int.cast_nonneg (half.height_nonneg i))
  rw [weights_eq, min_eq_zero hfull, min_eq_zero hstrong, min_eq_zero hno, hhalf, hweak, max_self,
    max_self, max_eq_right h0, max_eq_left (h0.trans (le_max_left _ _)), max_comm]

end Band

/-! ## 3. Stages -/

open Band

/-- The stages through which a similarity rises to the middle of its domain. -/
inductive Stage where
  /-- the lowest rule fires alone -/
  | alone
  /-- the second lowest rule fires too, but less -/
  | joined
  /-- it fires more than the lowest rule -/
  | outdone
  /-- it gives way to the third rule -/
  | handover
  deriving DecidableEq, Repr

namespace Stage

/-- The similarities of a stage. -/
def span : Stage → Set ℝ
  | alone => Set.Iic 0.2
  | joined => Set.Icc 0.2 0.25
  | outdone => Set.Icc 0.25 0.35
  | handover => Set.Icc 0.35 0.55

/-- The two sets of a stage, the strengths at its ends, and twice the two points between which the
centre stays. -/
def piece : Stage → Piece
  | alone => ⟨no.height, weak.height, 40, 60, 0, 0, 14, 50⟩
  | joined => ⟨no.height, weak.height, 20, 40, 0, 20, 19, 50⟩
  | outdone => ⟨no.height, weak.height, 0, 20, 20, 60, 14, 50⟩
  | handover => ⟨weak.height, half.height, 0, 60, 0, 60, 50, 100⟩

/-- The strength that falls. -/
noncomputable def falling : Stage → ℝ → ℝ
  | handover => fallTo 0.5
  | _ => fallTo 0.3

/-- The strength that rises. -/
noncomputable def rising : Stage → ℝ → ℝ
  | handover => riseFrom 0.4
  | _ => riseFrom 0.2

theorem falling_anti (k : Stage) : Antitone k.falling := by
  cases k <;> exact fallTo_anti _

theorem rising_mono (k : Stage) : Monotone k.rising := by
  cases k <;> exact riseFrom_mono _

/-- **Every stage is balanced.** -/
theorem balanced (k : Stage) : k.piece.Balanced where
  leftLow_nonneg := by cases k <;> decide
  rightLow_nonneg := by cases k <;> decide
  near_nonneg := by cases k <;> decide
  near_le_far := by cases k <;> decide
  outside := by
    intro i hi
    cases k with
    | alone | joined | outdone => exact ⟨no.height_outside hi, weak.height_outside hi⟩
    | handover => exact ⟨weak.height_outside hi, half.height_outside hi⟩
  removed := by
    -- the heights are cut off lines in the index, so the cases are linear
    intro i j hij hm
    cases k <;> simp only [piece, Yields, height, level] at hm ⊢
    case handover => omega
    all_goals split_ifs <;> omega
  added := by
    intro i j hij hm
    cases k <;> simp only [piece, Yields, height, level] at hm ⊢
    case handover => omega
    all_goals split_ifs <;> omega

/-- The strengths stay within the bounds of their stage. -/
theorem admits (k : Stage) {s : ℝ} (hs : s ∈ k.span) :
    k.piece.Admits (k.falling s) (k.rising s) := by
  simp only [Piece.Admits, Set.mem_Icc]
  cases k with
  | alone =>
    have hs : s ≤ 0.2 := hs
    have hf : fallTo 0.3 0.2 ≤ fallTo 0.3 s := fallTo_anti _ hs
    rw [fallTo_eq (by norm_num) (by norm_num)] at hf
    have hr : riseFrom 0.2 s = 0 := riseFrom_eq_zero (by linarith)
    simp only [falling, rising, piece, hr]
    norm_num at hf ⊢
    exact ⟨hf, fallTo_le_sixty _ _⟩
  | joined =>
    obtain ⟨h, h'⟩ := hs
    have hf : fallTo 0.3 s = 400 * (0.3 - s) := fallTo_eq (by linarith) (by linarith)
    have hr : riseFrom 0.2 s = 400 * (s - 0.2) := riseFrom_eq (by linarith) (by linarith)
    simp only [falling, rising, piece, hf, hr]
    norm_num
    exact ⟨⟨by linarith, by linarith⟩, by linarith, by linarith⟩
  | outdone =>
    obtain ⟨h, h'⟩ := hs
    have hf : fallTo 0.3 s ≤ fallTo 0.3 0.25 := fallTo_anti _ h
    rw [fallTo_eq (s := 0.25) (by norm_num) (by norm_num)] at hf
    have hr : riseFrom 0.2 s = 400 * (s - 0.2) := riseFrom_eq (by linarith) (by linarith)
    simp only [falling, rising, piece, hr]
    norm_num at hf ⊢
    exact ⟨⟨fallTo_nonneg _ _, hf⟩, by linarith, by linarith⟩
  | handover =>
    simp only [falling, rising, piece]
    norm_num
    exact ⟨⟨fallTo_nonneg _ _, fallTo_le_sixty _ _⟩, riseFrom_nonneg _ _, riseFrom_le_sixty _ _⟩

/-- At every stage the weights are those of two clipped sets. -/
theorem weights_eq_joint (k : Stage) {s : ℝ} (hs : s ∈ k.span) :
    weights s = k.piece.joint (k.falling s) (k.rising s) := by
  funext i
  cases k with
  | alone => exact weights_low (by linarith [Set.mem_Iic.mp hs]) i
  | joined => exact weights_low (by linarith [hs.2]) i
  | outdone => exact weights_low hs.2 i
  | handover => exact weights_middle hs.1 hs.2 i

/-- Through a stage moments only grow. -/
theorem moment_monotoneOn (k : Stage) {c : ℝ} (hc : c ∈ Set.Icc (k.piece.near : ℝ) k.piece.far) :
    MonotoneOn (fun s => moment (weights s) c) k.span := by
  have h := Piece.moment_monotoneOn k.balanced k.falling_anti k.rising_mono
    (fun s hs => k.admits hs) hc
  refine h.congr ?_
  intro s hs
  simp only [k.weights_eq_joint hs]

/-! ## 4. The centre between its two points -/

/-- Where the strengths are integral, moments are sums of integers. -/
theorem moment_of_sum (k : Stage) {s : ℝ} (hs : s ∈ k.span) {a b m n : ℤ}
    (ha : k.falling s = a) (hb : k.rising s = b)
    (hn : ∑ i ∈ Finset.Icc (0 : ℤ) 100,
      max (min a (k.piece.left i)) (min b (k.piece.right i)) * (2 * i - m) = n) :
    moment (weights s) m = n := by
  rw [k.weights_eq_joint hs, ha, hb, Piece.moment_joint_cast, hn]

/-- What rises through the first three stages rises up to 0.35. -/
theorem monotoneOn_low {f : ℝ → ℝ} (h : ∀ k : Stage, k ≠ handover → MonotoneOn f k.span) :
    MonotoneOn f (Set.Iic 0.35) := by
  have h₁ : MonotoneOn f (Set.Iic 0.2) := h alone (by decide)
  have h₂ : MonotoneOn f (Set.Icc 0.2 0.25) := h joined (by decide)
  have h₃ : MonotoneOn f (Set.Icc 0.25 0.35) := h outdone (by decide)
  have h₁₂ := h₁.union_right h₂ isGreatest_Iic (isLeast_Icc (by norm_num))
  rw [Set.Iic_union_Icc_eq_Iic (by norm_num)] at h₁₂
  have h₁₃ := h₁₂.union_right h₃ isGreatest_Iic (isLeast_Icc (by norm_num))
  rwa [Set.Iic_union_Icc_eq_Iic (by norm_num)] at h₁₃

/-- At 0.35 the second lowest set is left alone, and it is balanced at its peak. -/
theorem moment_peak_weak : moment (weights 0.35) 50 = 0 := by
  have hs : (0.35 : ℝ) ∈ span outdone := ⟨by norm_num, le_rfl⟩
  have hf : outdone.falling 0.35 = (0 : ℤ) := mod_cast fallTo_eq_zero (by norm_num)
  have hr : outdone.rising 0.35 = (60 : ℤ) := mod_cast riseFrom_eq_sixty (by norm_num)
  have h := moment_of_sum outdone hs hf hr (m := 50) (n := 0) (by decide +kernel)
  exact_mod_cast h

/-- In the middle the third set is left alone, and it is balanced at its peak. -/
theorem moment_peak_half : moment (weights 0.55) 100 = 0 := by
  have hs : (0.55 : ℝ) ∈ span handover := ⟨by norm_num, le_rfl⟩
  have hf : handover.falling 0.55 = (0 : ℤ) := mod_cast fallTo_eq_zero (by norm_num)
  have hr : handover.rising 0.55 = (60 : ℤ) := mod_cast riseFrom_eq_sixty (by norm_num)
  have h := moment_of_sum handover hs hf hr (m := 100) (n := 0) (by decide +kernel)
  exact_mod_cast h

/-- Where nothing but the lowest set is there, unclipped, the centre is right of 0.07. -/
theorem moment_start {s : ℝ} (h : s ≤ 0) : 0 ≤ moment (weights s) 14 := by
  have hs : s ∈ span alone := h.trans (by norm_num)
  have hf : alone.falling s = (60 : ℤ) := mod_cast fallTo_eq_sixty (by linarith)
  have hr : alone.rising s = (0 : ℤ) := mod_cast riseFrom_eq_zero (by linarith)
  have h : moment (weights s) 14 = 4360 :=
    mod_cast moment_of_sum alone hs hf hr (m := 14) (n := 4360) (by decide +kernel)
  rw [h]
  norm_num

/-- When the second lowest set joins in, the centre is right of 0.095. -/
theorem moment_join : 0 ≤ moment (weights 0.2) 19 := by
  have hs : (0.2 : ℝ) ∈ span joined := ⟨le_rfl, by norm_num⟩
  have hslope : fallTo 0.3 0.2 = 400 * (0.3 - 0.2) :=
    fallTo_eq (by norm_num) (by norm_num)
  have hf : joined.falling 0.2 = (40 : ℤ) := by
    change fallTo 0.3 0.2 = _
    rw [hslope]
    norm_num
  have hr : joined.rising 0.2 = (0 : ℤ) := mod_cast riseFrom_eq_zero (by norm_num)
  have h : moment (weights 0.2) 19 = 740 :=
    mod_cast moment_of_sum joined hs hf hr (m := 19) (n := 740) (by decide +kernel)
  rw [h]
  norm_num

/-- Up to 0.35 the centre stays left of the peak of the second lowest set. -/
theorem moment_fifty_nonpos {s : ℝ} (h : s ≤ 0.35) : moment (weights s) 50 ≤ 0 := by
  have hmono : MonotoneOn (fun s => moment (weights s) 50) (Set.Iic 0.35) := by
    refine monotoneOn_low fun k hk => k.moment_monotoneOn ?_
    cases k with
    | alone | joined | outdone => norm_num [piece]
    | handover => exact absurd rfl hk
  exact (hmono h Set.self_mem_Iic h).trans_eq moment_peak_weak

/-- **The centre stays right of the near point** of each stage. -/
theorem moment_near_nonneg (k : Stage) {s : ℝ} (hs : s ∈ k.span) :
    0 ≤ moment (weights s) k.piece.near := by
  have hnear : (k.piece.near : ℝ) ∈ Set.Icc (k.piece.near : ℝ) k.piece.far :=
    ⟨le_rfl, Int.cast_le.mpr k.balanced.near_le_far⟩
  have hmono := k.moment_monotoneOn hnear
  cases k with
  | alone =>
    -- the stage has no first similarity, but up to 0 nothing moves
    have h0 : min s 0 ∈ span alone := (min_le_left s 0).trans hs
    exact (moment_start (min_le_right s 0)).trans (hmono h0 hs (min_le_left s 0))
  | joined => exact moment_join.trans (hmono ⟨le_rfl, by norm_num⟩ hs hs.1)
  | outdone =>
    have h14 : (0.25 : ℝ) ∈ span joined := ⟨by norm_num, le_rfl⟩
    have hj : 0 ≤ moment (weights 0.25) 19 := by
      refine moment_join.trans
        (joined.moment_monotoneOn ⟨le_rfl, ?_⟩ ⟨le_rfl, by norm_num⟩ h14 h14.1)
      norm_num [piece]
    -- the near point moves back to the left here
    have ho : 0 ≤ moment (weights 0.25) 14 :=
      hj.trans (moment_anti (weights_nonneg _) (by norm_num))
    exact ho.trans (hmono ⟨le_rfl, by norm_num⟩ hs hs.1)
  | handover => exact moment_peak_weak.ge.trans (hmono ⟨le_rfl, by norm_num⟩ hs hs.1)

/-- **The centre stays left of the far point** of each stage. -/
theorem moment_far_nonpos (k : Stage) {s : ℝ} (hs : s ∈ k.span) :
    moment (weights s) k.piece.far ≤ 0 := by
  cases k with
  | alone => exact moment_fifty_nonpos (by linarith [Set.mem_Iic.mp hs])
  | joined => exact moment_fifty_nonpos (by linarith [hs.2])
  | outdone => exact moment_fifty_nonpos hs.2
  | handover =>
    have hmono := handover.moment_monotoneOn (c := 100) (by norm_num [piece])
    exact (hmono hs ⟨by norm_num, le_rfl⟩ hs.2).trans_eq moment_peak_half

/-- Through a stage the centre moves to the right. -/
theorem centre_monotoneOn (k : Stage) : MonotoneOn (fun s => centre (weights s)) k.span :=
  Balance.centre_monotoneOn (fun _ hc => k.moment_monotoneOn hc) (fun s _ => mass_weights_pos s)
    (fun _ hs => k.moment_near_nonneg hs) (fun _ hs => k.moment_far_nonpos hs)

end Stage

/-- **The centre of the weights never moves to the left** while the similarity grows. -/
theorem centre_weights_mono : Monotone fun s => centre (weights s) := by
  have hlow : MonotoneOn (fun s => centre (weights s)) (Set.Iic 0.55) := by
    have h₁ := Stage.monotoneOn_low fun k _ => k.centre_monotoneOn
    have h₂ : MonotoneOn (fun s => centre (weights s)) (Set.Icc 0.35 0.55) :=
      Stage.handover.centre_monotoneOn
    have h := h₁.union_right h₂ isGreatest_Iic (isLeast_Icc (by norm_num))
    rwa [Set.Iic_union_Icc_eq_Iic (by norm_num)] at h
  have hhigh : MonotoneOn (fun s => centre (weights s)) (Set.Ici 0.55) := by
    intro s hs t ht hst
    have hs' : (1.1 - s : ℝ) ≤ 0.55 := by linarith [Set.mem_Ici.mp hs]
    have ht' : (1.1 - t : ℝ) ≤ 0.55 := by linarith [Set.mem_Ici.mp ht]
    have hm : centre (weights (1.1 - t)) ≤ centre (weights (1.1 - s)) :=
      hlow ht' hs' (by linarith)
    rw [centre_weights_mirror, centre_weights_mirror] at hm
    exact (sub_le_sub_iff_left 100).mp hm
  exact hlow.Iic_union_Ici hhigh

end Graded
