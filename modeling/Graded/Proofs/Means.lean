/-
# Means of degrees

In exact arithmetic the mean of degrees is a degree.  It is one in doubles, too, although every sum
on the way to it is rounded.

Rounding keeps bounds: what is at most some double is rounded to no more than this double
(`exists_round`).  So a number of arithmetic that is not negative is known well enough by its size
(`Amounts`): sums and quotients that are at most a double stay so (`exists_add`, `exists_div`).  A
sum of `n` degrees is hence at most `n`, as long as doubles hold every natural up to `n`, and the
quotient of the two is at most 1 (`meansBelow_double`).
-/
import Graded.Proofs.Comparable
import Graded.Proofs.Truth

namespace Graded

/-! ## 1. Means -/

/-- In this arithmetic the mean of fewer than so many degrees is a degree. -/
def Scalar.MeansBelow (α : Type) [Scalar α] (limit : ℕ) : Prop :=
  ∀ xs : List α, xs.length < limit → (∀ x ∈ xs, 0 ≤ x ∧ x ≤ 1) →
    0 ≤ proportion xs ∧ proportion xs ≤ 1

theorem Scalar.meansBelow_real (limit : ℕ) : Scalar.MeansBelow ℝ limit := by
  intro xs _ hxs
  exact proportion_mem hxs

namespace Decimal

open Float.Model Float.Model.UnpackedFloat

/-! ## 2. Bounds under rounding -/

section

variable {b : Binary} {em : ExtendedMantissa} {q v : ℚ} {m n : ℕ} {e : ℤ} {acc : Accuracy}

/-- What is at most a natural is rounded to at most this natural. -/
theorem Locates.roundedMantissa_le (h : Locates em q) (hq : q ≤ n) : em.roundedMantissa ≤ n := by
  obtain ⟨m, r, s⟩ := em
  have hmn : m ≤ n := by exact_mod_cast h.mantissa_le.trans hq
  rcases hmn.eq_or_lt with rfl | hlt
  · -- the number is a natural, and exact
    have hexact : q = m + half r := by
      refine le_antisymm ?_ h.lower
      exact hq.trans (le_add_of_nonneg_right (half_nonneg r))
    have hs : s = false := h.exact_iff.mpr hexact
    have hr : r = false := by
      cases r with
      | false => rfl
      | true => simp only [half, if_true] at hexact; linarith
    subst hs hr
    exact le_rfl
  · cases r <;> cases s
    · exact hmn
    · exact hmn
    · change m + m % 2 ≤ n
      omega
    · exact hlt

/-- Rounding goes down to the next natural at most. -/
theorem Locates.le_roundedMantissa (h : Locates em q) (hq : n ≤ q) : n ≤ em.roundedMantissa := by
  obtain ⟨m, r, s⟩ := em
  have hnm : n ≤ m := by
    have hlt : (n : ℚ) < m + 1 := hq.trans_lt h.lt_mantissa
    exact Nat.lt_succ_iff.mp (by exact_mod_cast hlt)
  cases r <;> cases s
  · exact hnm
  · exact hnm
  · exact hnm.trans (Nat.le_add_right m (m % 2))
  · exact hnm.trans (Nat.le_succ m)

theorem pow_mul_zpow (k : ℕ) (t : ℤ) : ((2 ^ k : ℕ) : ℚ) * 2 ^ t = 2 ^ (t + k) := by
  rw [Nat.cast_pow, Nat.cast_two, zpow_add_nat, mul_comm]

/-- Digits at the end change nothing. -/
theorem cast_shiftLeft_mul (m : ℕ) {d e : ℤ} (h : d ≤ e) :
    ((m <<< (e - d).toNat : ℕ) : ℚ) * 2 ^ d = m * 2 ^ e := by
  rw [Nat.shiftLeft_eq, Nat.cast_mul, Nat.cast_pow, Nat.cast_two, mul_assoc, ← zpow_natCast,
    ← zpow_add₀ two_ne_zero, Int.toNat_of_nonneg (by omega), sub_add_cancel]

theorem Binary.Proper.lt_zpow (hb : b.Proper) :
    (b.mantissa * 2 ^ b.exponent : ℚ) < 2 ^ (b.exponent + 53) := by
  have hmantissa : (b.mantissa : ℚ) < (2 ^ 53 : ℕ) := Nat.cast_lt.mpr hb.lt
  calc (b.mantissa * 2 ^ b.exponent : ℚ) < (2 ^ 53 : ℕ) * 2 ^ b.exponent :=
        mul_lt_mul_of_pos_right hmantissa (zpow_pos two_pos _)
    _ = 2 ^ (b.exponent + 53) := pow_mul_zpow 53 b.exponent

section

variable (hm : Locates (ExtendedMantissa.ofMantissaAndAccuracy m acc) (v / 2 ^ e))
  (he : e ≤ Format.binary64.targetExponent (totalExponent m e))

include hm he

/-- A double is a multiple of the units that lesser numbers are rounded in. -/
theorem targetExponent_le (hb : b.Proper) (hv : v ≤ b.mantissa * 2 ^ b.exponent) :
    Format.binary64.targetExponent (totalExponent m e) ≤ b.exponent := by
  have hleast := hb.least
  rw [targetExponent_eq] at he ⊢
  rcases eq_or_ne m 0 with rfl | hm0
  · rw [Nat.log2_zero] at he ⊢
    omega
  · have hexp := (zpow_lt_zpow_iff_right₀ one_lt_two).mp
      (((zpow_le_of_locates hm hm0).trans hv).trans_lt hb.lt_zpow)
    omega

/-- After rounding there are 53 digits, or one more. -/
theorem roundedMantissa_le_pow :
    (shiftToTargetExponent Format.binary64 m e acc).1.roundedMantissa ≤ 2 ^ 53 := by
  have htarget := targetExponent_eq m e
  refine (hm.shiftToTargetExponent he).roundedMantissa_le ?_
  rw [div_le_iff₀ (zpow_pos two_pos _), pow_mul_zpow]
  exact (lt_zpow_of_locates hm).le.trans (zpow_le_zpow_right₀ one_le_two (by omega))

/-- There are no fewer, but at the bottom of the range. -/
theorem pow_le_roundedMantissa :
    2 ^ 52 ≤ (shiftToTargetExponent Format.binary64 m e acc).1.roundedMantissa ∨
      Format.binary64.targetExponent (totalExponent m e) = -1074 := by
  have htarget := targetExponent_eq m e
  by_cases hbottom : Format.binary64.targetExponent (totalExponent m e) = -1074
  · exact .inr hbottom
  · have hm0 : m ≠ 0 := by
      rintro rfl
      rw [Nat.log2_zero] at htarget
      omega
    have hexp : Format.binary64.targetExponent (totalExponent m e) + (52 : ℕ) = m.log2 + e := by
      omega
    refine .inl ((hm.shiftToTargetExponent he).le_roundedMantissa ?_)
    rw [le_div_iff₀ (zpow_pos two_pos _), pow_mul_zpow, hexp]
    exact zpow_le_of_locates hm hm0

end

/-- A number of arithmetic is not negative, and this is its size. -/
inductive Amounts : UnpackedFloat → ℚ → Prop
  | zero (s : Sign) : Amounts (.zero s) 0
  | finite {m : ℕ} {e : ℤ} (hb : Binary.Proper ⟨false, m, e⟩) :
    Amounts (.finite .positive m e hb.pos) (m * 2 ^ e)

/-- What is left after rounding: nothing, a number in the form of a double, or one digit too many,
which is zero. -/
theorem amounts_of_shift {t : ℤ}
    (hn : (shiftToTargetExponent Format.binary64 m e acc).1.roundedMantissa = n)
    (ht : (shiftToTargetExponent Format.binary64 m e acc).2 = t) (hle : n ≤ 2 ^ 53)
    (hleast : -1074 ≤ t) (hfull : 2 ^ 52 ≤ n ∨ t = -1074) (hmost : t ≤ 971)
    (hcarry : n = 2 ^ 53 → t < 971) :
    Amounts (roundWithAccuracy Format.binary64 .positive m e acc) (n * 2 ^ t) := by
  rcases Nat.eq_zero_or_pos n with hzero | hpos
  · have hshift : (shiftToTargetExponent Format.binary64 n t .exact).1.mantissa = 0 := by
      rw [hzero]
      have hnone := ((locates_exact 0).shiftRight
        (Format.binary64.targetExponent (totalExponent 0 t) - t).toNat).mantissa_le
      rw [Nat.cast_zero, zero_div] at hnone
      exact Nat.le_zero.mp (by exact_mod_cast hnone)
    have hround : roundWithAccuracy Format.binary64 .positive m e acc = .zero .positive := by
      simp only [roundWithAccuracy, hn, ht]
      rw [dif_pos hshift]
    rw [hround, hzero, Nat.cast_zero, zero_mul]
    exact .zero _
  rcases hle.eq_or_lt with heq | hlt
  · have hb : Binary.Proper ⟨false, 2 ^ 52, t + 1⟩ := by
      refine ⟨by norm_num, by norm_num, ?_, ?_, .inl le_rfl⟩
      · dsimp only
        omega
      · exact hcarry heq
    have hvalue : (n : ℚ) * 2 ^ t = (2 ^ 52 : ℕ) * 2 ^ (t + 1) := by
      rw [heq, pow_mul_zpow, pow_mul_zpow, add_assoc]
      rfl
    rw [roundWithAccuracy_of_shift hn ht hb.pos (by rw [heq, shift_carry hleast]), hvalue]
    exact .finite hb
  · have hb : Binary.Proper ⟨false, n, t⟩ := ⟨hpos, hlt, hleast, hmost, hfull⟩
    rw [roundWithAccuracy_of_shift hn ht hb.pos hb.shift]
    exact .finite hb

/-- **Rounding keeps bounds.**  What is at most a double is rounded to at most this double. -/
theorem exists_round (hb : b.Proper) (hv : v ≤ b.mantissa * 2 ^ b.exponent)
    (hm : Locates (ExtendedMantissa.ofMantissaAndAccuracy m acc) (v / 2 ^ e))
    (he : e ≤ Format.binary64.targetExponent (totalExponent m e)) :
    ∃ u ≤ (b.mantissa * 2 ^ b.exponent : ℚ),
      Amounts (roundWithAccuracy Format.binary64 .positive m e acc) u := by
  have hte := targetExponent_le hm he hb hv
  have hlocates := hm.shiftToTargetExponent he
  have hle := roundedMantissa_le_pow hm he
  have hfull := pow_le_roundedMantissa hm he
  have hsecond := shiftToTargetExponent_of_le acc he
  have htarget := targetExponent_eq m e
  set t := Format.binary64.targetExponent (totalExponent m e)
  set n := (shiftToTargetExponent Format.binary64 m e acc).1.roundedMantissa with hn
  have hmost := hb.most
  have hbound : (n : ℚ) * 2 ^ t ≤ b.mantissa * 2 ^ b.exponent := by
    have hp : (0 : ℚ) < 2 ^ t := zpow_pos two_pos _
    rw [← cast_shiftLeft_mul b.mantissa hte] at hv ⊢
    have hle := hlocates.roundedMantissa_le ((div_le_iff₀ hp).mpr hv)
    exact mul_le_mul_of_nonneg_right (Nat.cast_le.mpr hle) hp.le
  refine ⟨n * 2 ^ t, hbound,
    amounts_of_shift hn.symm hsecond hle (by omega) hfull (by omega) ?_⟩
  intro hcarry
  rw [hcarry, pow_mul_zpow] at hbound
  have hexp := (zpow_lt_zpow_iff_right₀ one_lt_two).mp (hbound.trans_lt hb.lt_zpow)
  omega

/-! ## 3. Sums and quotients -/

/-- To round is to add digits at the end until there are enough. -/
theorem exists_round_eq (s : Sign) (hm : m ≠ 0) (e : ℤ) : ∃ m' e',
    UnpackedFloat.round Format.binary64 s m e =
      roundWithAccuracy Format.binary64 s m' e' .exact ∧
    (m' : ℚ) * 2 ^ e' = m * 2 ^ e ∧ e' ≤ Format.binary64.targetExponent (totalExponent m' e') := by
  set k := (e - Format.binary64.targetExponent (totalExponent m e)).toNat with hk
  refine ⟨m <<< k, e - k, rfl, ?_, ?_⟩
  · have hshift : (e - (e - k)).toNat = k := by omega
    have hvalue := cast_shiftLeft_mul m (Int.sub_le_self e (Int.natCast_nonneg k))
    rwa [hshift] at hvalue
  · have hlog : (m <<< k).log2 = m.log2 + k := by
      have hpow : 0 < 2 ^ k := Nat.pow_pos two_pos
      rw [Nat.shiftLeft_eq, Nat.log2_eq_iff (Nat.mul_ne_zero hm hpow.ne'), add_right_comm, pow_add,
        pow_add]
      exact ⟨Nat.mul_le_mul_right _ (Nat.log2_self_le hm),
        Nat.mul_lt_mul_of_pos_right Nat.lt_log2_self hpow⟩
    rw [targetExponent_eq] at hk
    rw [targetExponent_eq, hlog]
    omega

/-- A sum is computed exactly before it is rounded. -/
theorem exists_add_eq {m₁ m₂ : ℕ} (e₁ e₂ : ℤ) (h₁ : 0 < m₁) (h₂ : 0 < m₂) : ∃ m e,
    UnpackedFloat.add Format.binary64 (.finite .positive m₁ e₁ h₁) (.finite .positive m₂ e₂ h₂) =
      roundWithAccuracy Format.binary64 .positive m e .exact ∧
    (m : ℚ) * 2 ^ e = m₁ * 2 ^ e₁ + m₂ * 2 ^ e₂ ∧
    e ≤ Format.binary64.targetExponent (totalExponent m e) := by
  set d := min e₁ e₂ with hd
  set sum := m₁ <<< (e₁ - d).toNat + m₂ <<< (e₂ - d).toNat with hsum
  have hvalue : (sum : ℚ) * 2 ^ d = m₁ * 2 ^ e₁ + m₂ * 2 ^ e₂ := by
    rw [hsum, Nat.cast_add, add_mul, cast_shiftLeft_mul _ (min_le_left e₁ e₂),
      cast_shiftLeft_mul _ (min_le_right e₁ e₂)]
  have hpos : 0 < sum := by
    refine Nat.add_pos_left ?_ _
    rw [Nat.shiftLeft_eq]
    exact Nat.mul_pos h₁ (Nat.pow_pos two_pos)
  have hadd : UnpackedFloat.add Format.binary64 (.finite .positive m₁ e₁ h₁)
      (.finite .positive m₂ e₂ h₂) = UnpackedFloat.round Format.binary64 .positive sum d := by
    have hcompare : compare (sum : ℤ) 0 = .gt :=
      compare_gt_iff_gt.mpr (Int.natCast_pos.mpr hpos)
    change normalize Format.binary64 (sum : ℤ) d .positive = _
    rw [UnpackedFloat.normalize, hcompare]
    rfl
  rw [hadd, ← hvalue]
  exact exists_round_eq .positive hpos.ne' d

variable {a a' : UnpackedFloat} {v' : ℚ}

/-- A sum that is at most a double is rounded to at most this double. -/
theorem exists_add (hb : b.Proper) (ha : Amounts a v) (ha' : Amounts a' v')
    (hv : v + v' ≤ b.mantissa * 2 ^ b.exponent) :
    ∃ u ≤ (b.mantissa * 2 ^ b.exponent : ℚ),
      Amounts (UnpackedFloat.add Format.binary64 a a') u := by
  cases ha with
  | zero s =>
    rw [zero_add] at hv
    cases ha' with
    | zero s' =>
      refine ⟨0, hv, ?_⟩
      cases s <;> cases s' <;> exact .zero _
    | finite hb' => exact ⟨_, hv, .finite hb'⟩
  | @finite m e hb₁ =>
    cases ha' with
    | zero s' =>
      rw [add_zero] at hv
      exact ⟨_, hv, .finite hb₁⟩
    | @finite m' e' hb₂ =>
      obtain ⟨n, t, hadd, hvalue, he⟩ := exists_add_eq e e' hb₁.pos hb₂.pos
      rw [hadd]
      refine exists_round hb (hvalue.trans_le hv) ?_ he
      rw [mul_div_cancel_right₀ _ (zpow_ne_zero _ two_ne_zero)]
      exact locates_exact n

/-- A quotient that is at most a double is rounded to at most this double. -/
theorem exists_div (hb : b.Proper) (ha : Amounts a v) (ha' : Amounts a' v') (hpos : 0 < v')
    (hv : v / v' ≤ b.mantissa * 2 ^ b.exponent) :
    ∃ u ≤ (b.mantissa * 2 ^ b.exponent : ℚ),
      Amounts (UnpackedFloat.div Format.binary64 a a') u := by
  cases ha' with
  | zero s' => exact absurd hpos (lt_irrefl 0)
  | @finite m' e' hb' =>
    cases ha with
    | zero s =>
      rw [zero_div] at hv
      exact ⟨0, hv, .zero _⟩
    | @finite m e hb₁ =>
      obtain ⟨n, t, acc, hdiv, hlocates, he⟩ :=
        exists_div_eq .positive .positive e e' hb₁.pos hb'.pos
      rw [hdiv]
      refine exists_round hb ?_ hlocates he
      rw [mul_div_mul_comm, ← zpow_sub₀ two_ne_zero] at hv
      exact hv

end

/-! ## 4. Doubles and their sizes -/

section

variable {a b : UnpackedFloat} {x y : Float} {v w : ℚ} {m m' n : ℕ} {e e' : ℤ}

theorem unpack_of_zero {negative : Bool} (h : Datum.ofFloat x = .finite ⟨negative, 0, e⟩) :
    x.toModel.unpack = .zero (signOf negative) := by
  rw [unpack_toModel, h, Datum.unpacked, dif_pos rfl]

/-- What is packed is unpacked. -/
theorem Amounts.pack (h : Amounts a v) : Amounts (Float.ofModel (.pack a)).toModel.unpack v := by
  cases h with
  | zero s =>
    cases s with
    | positive =>
      have hdatum : Datum.ofFloat (.ofModel (.pack (.zero .positive))) =
          .finite ⟨false, 0, -1074⟩ := by decide +kernel
      rw [unpack_of_zero hdatum]
      exact .zero _
    | negative =>
      have hdatum : Datum.ofFloat (.ofModel (.pack (.zero .negative))) =
          .finite ⟨true, 0, -1074⟩ := by decide +kernel
      rw [unpack_of_zero hdatum]
      exact .zero _
  | @finite m e hb =>
    have hdatum : Datum.ofFloat (.ofModel (.pack (.finite .positive m e hb.pos))) =
        .finite ⟨false, m, e⟩ := ofFloat_pack hb
    rw [unpack_of_finite hdatum hb.pos]
    exact .finite hb

theorem Amounts.nonneg (h : Amounts a v) : 0 ≤ v := by
  cases h with
  | zero s => exact le_rfl
  | finite hb => exact mul_nonneg (Nat.cast_nonneg _) (zpow_nonneg two_pos.le _)

theorem Amounts.defined (h : Amounts x.toModel.unpack v) : Scalar.undefined x = false := by
  refine undefined_eq_false_iff.mpr fun hx => ?_
  rw [hx] at h
  cases h

theorem Amounts.place_lt (h : Amounts a v) : place a < toLex (2, toLex (0, 0)) := by
  cases h with
  | zero s => exact Prod.Lex.toLex_lt_toLex.mpr (.inl two_pos)
  | finite hb => exact Prod.Lex.toLex_lt_toLex.mpr (.inl one_lt_two)

/-- The number with the greater exponent is greater. -/
theorem lt_of_exponent_lt (hb : Binary.Proper ⟨false, m, e⟩) (hb' : Binary.Proper ⟨false, m', e'⟩)
    (h : e < e') : (m * 2 ^ e : ℚ) < m' * 2 ^ e' := by
  have hleast : -1074 ≤ e := hb.least
  have hfull : 2 ^ 52 ≤ m' := hb'.full.resolve_right (by dsimp only; omega)
  calc (m * 2 ^ e : ℚ) < 2 ^ (e + 53) := hb.lt_zpow
    _ ≤ 2 ^ (e' + (52 : ℕ)) := zpow_le_zpow_right₀ one_le_two (by omega)
    _ = 2 ^ 52 * 2 ^ e' := by rw [zpow_add_nat, mul_comm]
    _ ≤ m' * 2 ^ e' :=
      mul_le_mul_of_nonneg_right (by exact_mod_cast hfull) (zpow_nonneg two_pos.le _)

/-- The places of two numbers are in the order of their sizes. -/
theorem Amounts.place_le_iff (ha : Amounts a v) (hb : Amounts b w) :
    place a ≤ place b ↔ v ≤ w := by
  cases ha with
  | zero s =>
    cases hb with
    | zero s' => exact iff_of_true le_rfl le_rfl
    | finite hb =>
      refine iff_of_true ?_ (Amounts.finite hb).nonneg
      rw [place, place, Prod.Lex.toLex_le_toLex]
      exact .inl zero_lt_one
  | @finite m e ha =>
    have hpos : (0 : ℚ) < m * 2 ^ e := mul_pos (Nat.cast_pos.mpr ha.pos) (zpow_pos two_pos _)
    cases hb with
    | zero s' =>
      refine iff_of_false ?_ hpos.not_ge
      rw [place, place, Prod.Lex.toLex_le_toLex]
      simp
    | @finite m' e' hb =>
      rw [place, place, Prod.Lex.toLex_le_toLex, Prod.Lex.toLex_le_toLex]
      simp only [lt_irrefl, false_or, true_and]
      rcases lt_trichotomy e e' with h | rfl | h
      · exact iff_of_true (.inl h) (lt_of_exponent_lt ha hb h).le
      · rw [mul_le_mul_iff_left₀ (zpow_pos two_pos _)]
        simp
      · refine iff_of_false ?_ (lt_of_exponent_lt hb ha h).not_ge
        omega

theorem Amounts.le_iff (hx : Amounts x.toModel.unpack v) (hy : Amounts y.toModel.unpack w) :
    x ≤ y ↔ v ≤ w := by
  rw [le_iff_place hx.defined hy.defined, hx.place_le_iff hy]

theorem unpack_zero : (0 : Float).toModel.unpack = .zero .positive := by
  have hdatum : Datum.ofFloat (0 : Float) = .finite ⟨false, 0, -1074⟩ := by decide +kernel
  exact unpack_of_zero hdatum

theorem amounts_zero : Amounts (0 : Float).toModel.unpack 0 := unpack_zero ▸ .zero _

/-- A natural that 53 digits hold is its own size. -/
theorem amounts_natCast (hn : 0 < n) (hlt : n < 2 ^ 53) :
    Amounts (n : Float).toModel.unpack n := by
  have hb := Binary.proper_ofNat hn hlt
  have hdatum : Datum.ofFloat (n : Float) = .finite (Binary.ofNat n) := by
    refine ofFloat_ofScientific (p := 0) hn hb rfl ?_
    rw [zpow_zero, mul_one]
    exact Binary.value_ofNat hn hlt ▸ Interval.covers_self hb
  rw [unpack_of_finite hdatum hb.pos, ← Binary.value_ofNat hn hlt]
  exact .finite hb

theorem amounts_one : Amounts (1 : Float).toModel.unpack 1 := by
  have hone := amounts_natCast (n := 1) (by norm_num) (by norm_num)
  rw [Nat.cast_one] at hone
  exact hone

/-- A double between zero and one of known size has a size. -/
theorem exists_amounts (h0 : 0 ≤ x) (hxy : x ≤ y) (hy : Amounts y.toModel.unpack w) :
    ∃ v ≤ w, Amounts x.toModel.unpack v := by
  have hx := (comparable_double.defined hxy).1
  have hsize : ∃ v, Amounts x.toModel.unpack v := by
    rw [le_iff_place amounts_zero.defined hx, unpack_zero] at h0
    rw [le_iff_place hx hy.defined] at hxy
    rw [undefined_eq_false_iff] at hx
    cases hdatum : Datum.ofFloat x with
    | undefined =>
      rw [unpack_toModel, hdatum] at hx
      exact absurd rfl hx
    | infinite negative =>
      rw [unpack_toModel, hdatum] at h0 hxy
      cases negative with
      | false => exact absurd (hxy.trans_lt hy.place_lt) (by decide)
      | true => exact absurd h0 (by decide)
    | finite b =>
      obtain ⟨negative, m, e⟩ := b
      rcases Nat.eq_zero_or_pos m with rfl | hm
      · rw [unpack_of_zero hdatum]
        exact ⟨0, .zero _⟩
      · have hb := proper_of_ofFloat hdatum hm
        rw [unpack_of_finite hdatum hm] at h0 ⊢
        cases negative with
        | false => exact ⟨_, .finite hb⟩
        | true =>
          rw [place, signOf, place, Prod.Lex.toLex_le_toLex] at h0
          simp at h0
  obtain ⟨v, hv⟩ := hsize
  exact ⟨v, (hv.le_iff hy).mp hxy, hv⟩

end

/-! ## 5. Means of doubles -/

variable {xs : List Float}

/-- A sum of degrees is at most their number. -/
theorem exists_total {s : Float} {v : ℚ} {n : ℕ} (hs : Amounts s.toModel.unpack v) (hv : v ≤ n)
    (hlt : n + xs.length < 2 ^ 53) (h : ∀ x ∈ xs, (0 : Float) ≤ x ∧ x ≤ 1) :
    ∃ u ≤ ((n + xs.length : ℕ) : ℚ), Amounts (xs.foldl (· + ·) s).toModel.unpack u := by
  induction xs generalizing s v n with
  | nil => exact ⟨v, hv, hs⟩
  | cons x xs ih =>
    rw [List.length_cons] at hlt
    obtain ⟨hx, hxs⟩ := List.forall_mem_cons.mp h
    obtain ⟨w, hw, hxw⟩ := exists_amounts hx.1 hx.2 amounts_one
    have hb := Binary.proper_ofNat (Nat.succ_pos n) (by omega)
    have hvalue := Binary.value_ofNat (Nat.succ_pos n) (by omega)
    have hbound : v + w ≤
        (Binary.ofNat (n + 1)).mantissa * 2 ^ (Binary.ofNat (n + 1)).exponent := by
      rw [hvalue]
      push_cast
      exact add_le_add hv hw
    obtain ⟨u, hu, hsum⟩ := exists_add hb hs hxw hbound
    rw [hvalue] at hu
    obtain ⟨t, ht, htotal⟩ := ih (s := s + x) hsum.pack hu (by omega) hxs
    refine ⟨t, ht.trans_eq ?_, htotal⟩
    rw [List.length_cons]
    congr 1
    omega

/-- **The mean of degrees is a degree in doubles, too**, as long as they hold every natural up to
the number of degrees. -/
theorem meansBelow_double : Scalar.MeansBelow Float (2 ^ 53) := by
  intro xs hlt hxs
  by_cases hnil : xs = []
  · subst hnil
    decide +kernel
  have hpos : 0 < xs.length := List.length_pos_iff.mpr hnil
  have hlength := amounts_natCast hpos hlt
  obtain ⟨v, hv, htotal⟩ := exists_total amounts_zero (n := 0) le_rfl (by omega) hxs
  rw [zero_add] at hv
  have hone := Binary.value_ofNat one_pos (by norm_num)
  have hle : v / xs.length ≤ (Binary.ofNat 1).mantissa * 2 ^ (Binary.ofNat 1).exponent := by
    rw [hone, Nat.cast_one]
    exact div_le_one_of_le₀ hv (Nat.cast_nonneg _)
  obtain ⟨q, hq, hquotient⟩ := exists_div (Binary.proper_ofNat one_pos (by norm_num)) htotal
    hlength (Nat.cast_pos.mpr hpos) hle
  rw [hone, Nat.cast_one] at hq
  have hmean : Amounts (proportion xs).toModel.unpack q := by
    rw [proportion, if_neg (by simpa using hnil)]
    exact hquotient.pack
  exact ⟨(amounts_zero.le_iff hmean).mpr hmean.nonneg, (hmean.le_iff amounts_one).mpr hq⟩

end Decimal
end Graded
