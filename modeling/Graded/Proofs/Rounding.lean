/-
# Correct rounding

Double arithmetic cuts the digits of a result off and keeps two bits of what is left: whether the
next digit is set, and whether any digit after it is.  `Locates` is what the mantissa with these
bits says about the exact number, a statement that shifting preserves, and a number inside the
interval of a double is rounded to this double (`roundWithAccuracy_eq`).

With that, products, quotients and decimals are rounded correctly as soon as they are computed with
enough digits.  The interval is the one of `Interval.ofBinary`, in which shortest decimals are
looked for; `Interval.Covers` says what it means for a rational to lie in it.
-/
import Mathlib
import Graded.Decimal.Shortest

namespace Graded
namespace Decimal

open Float.Model Float.Model.UnpackedFloat

/-! ## 1. A mantissa and two bits -/

/-- The value of the next digit. -/
def half (digit : Bool) : ℚ := if digit then 1 / 2 else 0

/-- What a mantissa and its two bits say about a number, in units of the last digit. -/
structure Locates (em : ExtendedMantissa) (q : ℚ) : Prop where
  lower : em.mantissa + half em.roundBit ≤ q
  upper : q < em.mantissa + half em.roundBit + 1 / 2
  exact_iff : em.stickyBit = false ↔ q = em.mantissa + half em.roundBit

theorem half_nonneg (digit : Bool) : 0 ≤ half digit := by cases digit <;> simp [half]

theorem half_le (digit : Bool) : half digit ≤ 1 / 2 := by cases digit <;> simp [half]

theorem Locates.mantissa_le {em : ExtendedMantissa} {q : ℚ} (h : Locates em q) :
    (em.mantissa : ℚ) ≤ q := by
  linarith [h.lower, half_nonneg em.roundBit]

theorem Locates.lt_mantissa {em : ExtendedMantissa} {q : ℚ} (h : Locates em q) :
    q < em.mantissa + 1 := by
  linarith [h.upper, half_le em.roundBit]

/-- A natural loses its last digit to the bit after it. -/
theorem div_two_add_half (m : ℕ) : ((m / 2 : ℕ) : ℚ) + half (m % 2 != 0) = m / 2 := by
  have hm : (m : ℚ) = 2 * (m / 2 : ℕ) + (m % 2 : ℕ) := by exact_mod_cast (Nat.div_add_mod m 2).symm
  rcases Nat.mod_two_eq_zero_or_one m with h | h
  · rw [hm, h]
    simp [half]
  · rw [hm, h]
    simp [half]
    ring

/-- The last digit becomes the first bit, and both bits become the second. -/
theorem Locates.shiftRightOne {em : ExtendedMantissa} {q : ℚ} (h : Locates em q) :
    Locates em.shiftRightOne (q / 2) := by
  have hvalue : (em.shiftRightOne.mantissa : ℚ) + half em.shiftRightOne.roundBit =
      em.mantissa / 2 := div_two_add_half em.mantissa
  refine ⟨?_, ?_, ?_⟩
  · rw [hvalue]
    linarith [h.mantissa_le]
  · rw [hvalue]
    linarith [h.lt_mantissa]
  · have hbits : em.shiftRightOne.stickyBit = (em.roundBit || em.stickyBit) := rfl
    rw [hvalue, hbits, Bool.or_eq_false_iff, h.exact_iff, div_left_inj' two_ne_zero]
    cases hr : em.roundBit with
    | false => simp [half]
    | true =>
      have hlower := h.lower
      rw [hr] at hlower
      simp only [half, if_true] at hlower
      simp only [Bool.true_eq_false, false_and, false_iff]
      intro hq
      linarith

theorem Locates.shiftRight {em : ExtendedMantissa} {q : ℚ} (h : Locates em q) (n : ℕ) :
    Locates (em >>> n) (q / 2 ^ n) := by
  induction n with
  | zero =>
    rw [pow_zero, div_one]
    exact h
  | succ n ih =>
    have hstep := ih.shiftRightOne
    rw [div_div, ← pow_succ] at hstep
    exact hstep

/-- The number is nearest to a natural, which is even if another is equally near. -/
structure Nearest (n : ℕ) (q : ℚ) : Prop where
  lower : n - 1 / 2 ≤ q
  upper : q ≤ n + 1 / 2
  even : q = n - 1 / 2 ∨ q = n + 1 / 2 → n % 2 = 0

/-- The two bits say where to round. -/
theorem Locates.roundedMantissa_eq {em : ExtendedMantissa} {q : ℚ} (h : Locates em q) {n : ℕ}
    (hn : Nearest n q) : em.roundedMantissa = n := by
  obtain ⟨m, r, s⟩ := em
  obtain ⟨hlower, hupper, hiff⟩ := h
  have hle : (n : ℚ) < m + 1 → n ≤ m := fun h => Nat.lt_succ_iff.mp (by exact_mod_cast h)
  have hge : (m : ℚ) < n + 1 → m ≤ n := fun h => Nat.lt_succ_iff.mp (by exact_mod_cast h)
  have hnlower := hn.lower
  have hnupper := hn.upper
  cases r with
  | false =>
    simp only [half, Bool.false_eq_true, if_false, add_zero] at hlower hupper
    have heq : m = n := le_antisymm (hge (by linarith)) (hle (by linarith))
    cases s <;> exact heq
  | true =>
    simp only [half, if_true] at hlower hupper hiff
    have hmn : m ≤ n := hge (by linarith)
    have hnm : n ≤ m + 1 := by
      have hcast : (n : ℚ) < m + 2 := by linarith
      exact Nat.lt_succ_iff.mp (by exact_mod_cast hcast)
    obtain rfl | rfl : n = m ∨ n = m + 1 := by omega
    · have hq : q = n + 1 / 2 := le_antisymm hnupper hlower
      rw [hiff.mpr hq]
      change n + n % 2 = n
      rw [hn.even (.inr hq), add_zero]
    · cases s with
      | false =>
        have hodd := hn.even (.inl (by rw [hiff.mp rfl]; push_cast; ring))
        change m + m % 2 = m + 1
        omega
      | true => rfl

/-! ## 2. Numbers in the form of a double -/

/-- A positive number in the form in which a double holds it: 53 digits, or fewer at the bottom of
the range. -/
structure Binary.Proper (b : Binary) : Prop where
  pos : 0 < b.mantissa
  lt : b.mantissa < 2 ^ 53
  least : -1074 ≤ b.exponent
  most : b.exponent ≤ 971
  full : 2 ^ 52 ≤ b.mantissa ∨ b.exponent = -1074

/-- The rational lies in the interval. -/
structure Interval.Covers (i : Interval) (v : ℚ) : Prop where
  lower : i.low * 2 ^ i.scale ≤ v
  upper : v ≤ i.high * 2 ^ i.scale
  closed : v = i.low * 2 ^ i.scale ∨ v = i.high * 2 ^ i.scale → i.closed = true

/-- The lower end is nearer only to a power of two that is not at the bottom of the range. -/
theorem Interval.cast_low {b : Binary} (hb : b.Proper) : ((Interval.ofBinary b).low : ℚ) =
    4 * b.mantissa - if b.mantissa = 2 ^ 52 ∧ -1074 < b.exponent then 1 else 2 := by
  have hpos := hb.pos
  change (((if b.mantissa = 2 ^ 52 ∧ -1074 < b.exponent then 4 * b.mantissa - 1
    else 4 * b.mantissa - 2 : ℕ) : ℚ)) = _
  split
  · rw [Nat.cast_sub (by omega)]
    push_cast
    rfl
  · rw [Nat.cast_sub (by omega)]
    push_cast
    rfl

theorem Interval.cast_high (b : Binary) :
    ((Interval.ofBinary b).high : ℚ) = 4 * b.mantissa + 2 := by
  change ((4 * b.mantissa + 2 : ℕ) : ℚ) = _
  push_cast
  rfl

theorem Interval.closed_eq_true (b : Binary) :
    (Interval.ofBinary b).closed = true ↔ b.mantissa % 2 = 0 := beq_iff_eq

/-- The scale of the interval is four times finer. -/
theorem Interval.zpow_scale (b : Binary) :
    (2 : ℚ) ^ (Interval.ofBinary b).scale = 2 ^ b.exponent / 4 := by
  change (2 : ℚ) ^ (b.exponent - 2) = _
  rw [zpow_sub₀ two_ne_zero]
  norm_num

section

variable {b : Binary} {v : ℚ}

/-- The interval in units of the last digit. -/
theorem Interval.Covers.nearest (h : (Interval.ofBinary b).Covers v) (hb : b.Proper) :
    Nearest b.mantissa (v / 2 ^ b.exponent) := by
  have hp : (0 : ℚ) < 2 ^ b.exponent := zpow_pos two_pos _
  obtain ⟨hlower, hupper, hclosed⟩ := h
  rw [zpow_scale] at hlower hupper hclosed
  rw [cast_low hb] at hlower hclosed
  rw [cast_high] at hupper hclosed
  refine ⟨?_, ?_, ?_⟩
  · rw [le_div_iff₀ hp]
    refine le_trans ?_ hlower
    split
    · linarith
    · linarith
  · rw [div_le_iff₀ hp]
    linarith
  · rw [closed_eq_true] at hclosed
    rw [div_eq_iff hp.ne', div_eq_iff hp.ne']
    rintro (hv | hv)
    · split at hclosed
      next hpower =>
        rw [hpower.1]
        norm_num
      next => exact hclosed (.inl (by linarith))
    · exact hclosed (.inr (by linarith))

end

/-! ## 3. Rounding -/

theorem targetExponent_eq (m : ℕ) (e : ℤ) : Format.binary64.targetExponent (totalExponent m e) =
    max (m.log2 + e - 52) (-1074) := by
  have hmin : Format.binary64.minExponent = -1074 := by decide
  have hbits : (Format.binary64.mantissaBits : ℤ) = 53 := rfl
  rw [Format.targetExponent, totalExponent, hmin, hbits]
  congr 1
  omega

section

variable {b : Binary} {v : ℚ}

/-- A mantissa with all of its digits, or at the bottom of the range, has its own exponent. -/
theorem targetExponent_of_full {n : ℕ} {t : ℤ} (hpos : 0 < n) (hlt : n < 2 ^ 53) (ht : -1074 ≤ t)
    (hfull : 2 ^ 52 ≤ n ∨ t = -1074) :
    Format.binary64.targetExponent (totalExponent n t) = t := by
  have hlog : n.log2 < 53 := (Nat.log2_lt hpos.ne').mpr hlt
  rw [targetExponent_eq]
  rcases hfull with hfull | hfull
  · have hge : 52 ≤ n.log2 := (Nat.le_log2 hpos.ne').mpr hfull
    omega
  · omega

/-- A number in the form of a double has its own exponent. -/
theorem Binary.Proper.targetExponent (hb : b.Proper) :
    Format.binary64.targetExponent (totalExponent b.mantissa b.exponent) = b.exponent :=
  targetExponent_of_full hb.pos hb.lt hb.least hb.full

theorem shiftToTargetExponent_of_le {m : ℕ} {e : ℤ} (acc : Accuracy)
    (h : e ≤ Format.binary64.targetExponent (totalExponent m e)) :
    (shiftToTargetExponent Format.binary64 m e acc).2 =
      Format.binary64.targetExponent (totalExponent m e) := by
  change e + ((Format.binary64.targetExponent (totalExponent m e) - e).toNat : ℤ) = _
  omega

/-- A mantissa in its own exponent is not shifted. -/
theorem shift_of_full {n : ℕ} {t : ℤ} (hpos : 0 < n) (hlt : n < 2 ^ 53) (ht : -1074 ≤ t)
    (hfull : 2 ^ 52 ≤ n ∨ t = -1074) :
    shiftToTargetExponent Format.binary64 n t .exact = (⟨n, false, false⟩, t) := by
  rw [shiftToTargetExponent, targetExponent_of_full hpos hlt ht hfull, shiftToExponent, sub_self]
  simp only [Int.toNat_zero, Nat.cast_zero, add_zero]
  rfl

/-- A number in the form of a double is not shifted. -/
theorem Binary.Proper.shift (hb : b.Proper) :
    shiftToTargetExponent Format.binary64 b.mantissa b.exponent .exact =
      (⟨b.mantissa, false, false⟩, b.exponent) :=
  shift_of_full hb.pos hb.lt hb.least hb.full

/-- A mantissa that has overflowed loses its last digit, which is zero. -/
theorem shift_carry {e : ℤ} (h : -1074 ≤ e) :
    shiftToTargetExponent Format.binary64 (2 ^ 53) e .exact = (⟨2 ^ 52, false, false⟩, e + 1) := by
  have htarget : Format.binary64.targetExponent (totalExponent (2 ^ 53) e) = e + 1 := by
    rw [targetExponent_eq, Nat.log2_two_pow]
    omega
  rw [shiftToTargetExponent, htarget, shiftToExponent, add_sub_cancel_left]
  rfl

theorem zpow_add_nat (e : ℤ) (n : ℕ) : (2 : ℚ) ^ (e + n) = 2 ^ e * 2 ^ n := by
  rw [zpow_add₀ two_ne_zero, zpow_natCast]

theorem Interval.Covers.lt_zpow (h : (Interval.ofBinary b).Covers v) (hb : b.Proper) :
    v < 2 ^ (b.exponent + 53) := by
  have hp : (0 : ℚ) < 2 ^ b.exponent := zpow_pos two_pos _
  have hlt : (b.mantissa : ℚ) + 1 / 2 < 2 ^ 53 := by
    have hcast : (b.mantissa : ℚ) + 1 ≤ 2 ^ 53 := by exact_mod_cast hb.lt
    linarith
  calc v ≤ (b.mantissa + 1 / 2) * 2 ^ b.exponent := (div_le_iff₀ hp).mp (h.nearest hb).upper
    _ < 2 ^ 53 * 2 ^ b.exponent := mul_lt_mul_of_pos_right hlt hp
    _ = 2 ^ (b.exponent + 53) := by rw [mul_comm, ← zpow_add_nat]; rfl

theorem Interval.Covers.zpow_lt (h : (Interval.ofBinary b).Covers v) (hb : b.Proper) {n : ℕ}
    (hn : (2 : ℚ) ^ n < b.mantissa - 1 / 2) : 2 ^ (b.exponent + n) < v := by
  have hp : (0 : ℚ) < 2 ^ b.exponent := zpow_pos two_pos _
  calc (2 : ℚ) ^ (b.exponent + n) = 2 ^ n * 2 ^ b.exponent := by rw [zpow_add_nat, mul_comm]
    _ < (b.mantissa - 1 / 2) * 2 ^ b.exponent := mul_lt_mul_of_pos_right hn hp
    _ ≤ v := (le_div_iff₀ hp).mp (h.nearest hb).lower

theorem mantissa_ofMantissaAndAccuracy (m : ℕ) (acc : Accuracy) :
    (ExtendedMantissa.ofMantissaAndAccuracy m acc).mantissa = m := by
  rcases acc with _ | (_ | _ | _) <;> rfl

section

variable {m : ℕ} {e : ℤ} {acc : Accuracy}

theorem lt_zpow_of_locates
    (h : Locates (ExtendedMantissa.ofMantissaAndAccuracy m acc) (v / 2 ^ e)) :
    v < 2 ^ (m.log2 + e + 1) := by
  have hp : (0 : ℚ) < 2 ^ e := zpow_pos two_pos _
  have hlt := h.lt_mantissa
  rw [mantissa_ofMantissaAndAccuracy, div_lt_iff₀ hp] at hlt
  have hlog : (m : ℚ) + 1 ≤ 2 ^ (m.log2 + 1) := by exact_mod_cast Nat.lt_log2_self
  calc v < (m + 1) * 2 ^ e := hlt
    _ ≤ 2 ^ (m.log2 + 1) * 2 ^ e := mul_le_mul_of_nonneg_right hlog hp.le
    _ = 2 ^ (m.log2 + e + 1) := by
      rw [mul_comm, ← zpow_add_nat]
      congr 1
      push_cast
      ring

theorem zpow_le_of_locates
    (h : Locates (ExtendedMantissa.ofMantissaAndAccuracy m acc) (v / 2 ^ e)) (hm : m ≠ 0) :
    2 ^ (m.log2 + e) ≤ v := by
  have hp : (0 : ℚ) < 2 ^ e := zpow_pos two_pos _
  have hle := h.mantissa_le
  rw [mantissa_ofMantissaAndAccuracy, le_div_iff₀ hp] at hle
  have hlog : (2 : ℚ) ^ m.log2 ≤ m := by exact_mod_cast Nat.log2_self_le hm
  calc (2 : ℚ) ^ (m.log2 + e) = 2 ^ m.log2 * 2 ^ e := by rw [add_comm, zpow_add_nat, mul_comm]
    _ ≤ m * 2 ^ e := mul_le_mul_of_nonneg_right hlog hp.le
    _ ≤ v := hle

/-- The number is rounded in the units of the double, or in finer ones if it lies below a power of
two and the double is this power. -/
theorem targetExponent_cases (hb : b.Proper) (hv : (Interval.ofBinary b).Covers v)
    (hm : Locates (ExtendedMantissa.ofMantissaAndAccuracy m acc) (v / 2 ^ e))
    (he : e ≤ Format.binary64.targetExponent (totalExponent m e)) :
    Format.binary64.targetExponent (totalExponent m e) = b.exponent ∨
      Format.binary64.targetExponent (totalExponent m e) + 1 = b.exponent ∧
        b.mantissa = 2 ^ 52 := by
  set t := Format.binary64.targetExponent (totalExponent m e) with ht
  rw [targetExponent_eq] at ht
  have hexp : ∀ {i j : ℤ}, (2 : ℚ) ^ i < 2 ^ j → i < j := (zpow_lt_zpow_iff_right₀ one_lt_two).mp
  have hle : t ≤ b.exponent := by
    by_contra hgt
    have hleast := hb.least
    have hm0 : m ≠ 0 := by
      rintro rfl
      rw [Nat.log2_zero] at ht
      omega
    have hlt := hexp ((zpow_le_of_locates hm hm0).trans_lt (hv.lt_zpow hb))
    omega
  rcases hle.eq_or_lt with heq | hlt
  · exact .inl heq
  · have hfull : 2 ^ 52 ≤ b.mantissa := hb.full.resolve_right (by omega)
    have hupper := lt_zpow_of_locates hm
    have hnear : t + 1 = b.exponent := by
      have hhalf : (2 : ℚ) ^ 51 < b.mantissa - 1 / 2 := by
        have hcast : (2 : ℚ) ^ 52 ≤ b.mantissa := by exact_mod_cast hfull
        linarith
      have hlt' := hexp ((hv.zpow_lt hb hhalf).trans hupper)
      omega
    refine .inr ⟨hnear, le_antisymm ?_ hfull⟩
    by_contra hmore
    have hwhole : (2 : ℚ) ^ 52 < b.mantissa - 1 / 2 := by
      have hcast : (2 : ℚ) ^ 52 + 1 ≤ b.mantissa := by exact_mod_cast not_le.mp hmore
      linarith
    have hlt' := hexp ((hv.zpow_lt hb hwhole).trans hupper)
    omega

/-- Below a power of two the interval reaches as far as in the units of the numbers there. -/
theorem Interval.Covers.nearest_carry (h : (Interval.ofBinary b).Covers v) (hb : b.Proper) {t : ℤ}
    (ht : t + 1 = b.exponent) (hleast : -1074 ≤ t) (hpower : b.mantissa = 2 ^ 52)
    (hlt : v < 2 ^ (t + 53)) : Nearest (2 ^ 53) (v / 2 ^ t) := by
  have hp : (0 : ℚ) < 2 ^ t := zpow_pos two_pos _
  have hlower := h.lower
  rw [zpow_scale, cast_low hb, if_pos ⟨hpower, by omega⟩, hpower, ← ht,
    zpow_add_one₀ two_ne_zero] at hlower
  refine ⟨?_, ?_, fun _ => by norm_num⟩
  · rw [le_div_iff₀ hp]
    push_cast at hlower ⊢
    linarith
  · rw [div_le_iff₀ hp]
    have hval : (2 : ℚ) ^ (t + 53) = 2 ^ 53 * 2 ^ t := by rw [mul_comm]; exact zpow_add_nat t 53
    push_cast
    linarith

theorem roundWithAccuracy_of_shift {s : Sign} {n k : ℕ} {t d : ℤ}
    (hn : (shiftToTargetExponent Format.binary64 m e acc).1.roundedMantissa = n)
    (ht : (shiftToTargetExponent Format.binary64 m e acc).2 = t) (hk : 0 < k)
    (hshift : shiftToTargetExponent Format.binary64 n t .exact = (⟨k, false, false⟩, d)) :
    roundWithAccuracy Format.binary64 s m e acc = .finite s k d hk := by
  simp only [roundWithAccuracy, hn, ht, hshift]
  rw [dif_neg hk.ne']

/-- What is located closely enough is located in the units that it is rounded in. -/
theorem Locates.shiftToTargetExponent
    (hm : Locates (ExtendedMantissa.ofMantissaAndAccuracy m acc) (v / 2 ^ e))
    (he : e ≤ Format.binary64.targetExponent (totalExponent m e)) :
    Locates (UnpackedFloat.shiftToTargetExponent Format.binary64 m e acc).1
      (v / 2 ^ Format.binary64.targetExponent (totalExponent m e)) := by
  set t := Format.binary64.targetExponent (totalExponent m e)
  have hshift := hm.shiftRight (t - e).toNat
  rw [div_div, ← zpow_natCast, ← zpow_add₀ two_ne_zero, Int.toNat_of_nonneg (by omega),
    add_sub_cancel] at hshift
  exact hshift

/-- **A number that is located closely enough, and lies in the interval of a double, is rounded to
this double.** -/
theorem roundWithAccuracy_eq (hb : b.Proper) (hv : (Interval.ofBinary b).Covers v) {s : Sign}
    (hm : Locates (ExtendedMantissa.ofMantissaAndAccuracy m acc) (v / 2 ^ e))
    (he : e ≤ Format.binary64.targetExponent (totalExponent m e)) :
    roundWithAccuracy Format.binary64 s m e acc = .finite s b.mantissa b.exponent hb.pos := by
  have hsecond := shiftToTargetExponent_of_le acc he
  have hcases := targetExponent_cases hb hv hm he
  have htarget := targetExponent_eq m e
  have hlocates := hm.shiftToTargetExponent he
  set t := Format.binary64.targetExponent (totalExponent m e)
  rcases hcases with heq | ⟨hnear, hpower⟩
  · rw [heq] at hlocates hsecond
    have hrounded := hlocates.roundedMantissa_eq (hv.nearest hb)
    exact roundWithAccuracy_of_shift hrounded hsecond hb.pos hb.shift
  · have hlt : v < 2 ^ (t + 53) :=
      (lt_zpow_of_locates hm).trans_le (zpow_le_zpow_right₀ one_le_two (by omega))
    have hcarry := hv.nearest_carry hb hnear (by omega) hpower hlt
    refine roundWithAccuracy_of_shift (hlocates.roundedMantissa_eq hcarry) hsecond hb.pos ?_
    rw [shift_carry (by omega), hpower, hnear]

end

/-! ## 4. Products and quotients -/

theorem locates_exact (m : ℕ) : Locates (ExtendedMantissa.ofMantissaAndAccuracy m .exact) m := by
  refine ⟨?_, ?_, ?_⟩ <;> simp [ExtendedMantissa.ofMantissaAndAccuracy, half]

/-- A whole quotient, and how twice the rest compares with the denominator. -/
theorem locates_div (n : ℕ) {d : ℕ} (hd : 0 < d) :
    Locates (ExtendedMantissa.ofMantissaAndAccuracy (n / d) (accuracyOfFraction (n % d) d))
      (n / d) := by
  have hd' : (0 : ℚ) < d := Nat.cast_pos.mpr hd
  have hq : (n : ℚ) / d = (n / d : ℕ) + (n % d : ℕ) / d := by
    have hsum : (n : ℚ) = d * (n / d : ℕ) + (n % d : ℕ) := by
      exact_mod_cast (Nat.div_add_mod n d).symm
    field_simp
    linarith
  have hmod : ((n % d : ℕ) : ℚ) / d < 1 := by
    rw [div_lt_one hd']
    exact_mod_cast Nat.mod_lt n hd
  rw [hq, accuracyOfFraction]
  split
  next hzero =>
    rw [hzero, Nat.cast_zero, zero_div, add_zero]
    exact locates_exact _
  next hpos =>
    have hrest : (0 : ℚ) < (n % d : ℕ) / d :=
      div_pos (Nat.cast_pos.mpr (Nat.pos_of_ne_zero hpos)) hd'
    rcases lt_trichotomy (2 * (n % d)) d with h | h | h
    · have hhalf : ((n % d : ℕ) : ℚ) / d < 1 / 2 := by
        rw [div_lt_div_iff₀ hd' two_pos, one_mul, mul_comm]
        exact_mod_cast h
      rw [Nat.compare_eq_lt.mpr h]
      refine ⟨?_, ?_, ?_⟩ <;> simp only [ExtendedMantissa.ofMantissaAndAccuracy, half]
      · simpa using hrest.le
      · simpa using hhalf
      · simpa using hrest.ne'
    · have hhalf : ((n % d : ℕ) : ℚ) / d = 1 / 2 := by
        rw [div_eq_div_iff hd'.ne' two_ne_zero, one_mul, mul_comm]
        exact_mod_cast h
      rw [Nat.compare_eq_eq.mpr h, hhalf]
      refine ⟨?_, ?_, ?_⟩ <;> simp [ExtendedMantissa.ofMantissaAndAccuracy, half]
    · have hhalf : 1 / 2 < ((n % d : ℕ) : ℚ) / d := by
        rw [div_lt_div_iff₀ two_pos hd', one_mul, mul_comm]
        exact_mod_cast h
      rw [Nat.compare_eq_gt.mpr h]
      refine ⟨?_, ?_, ?_⟩ <;> simp only [ExtendedMantissa.ofMantissaAndAccuracy, half, if_true]
      · linarith
      · linarith
      · simpa using hhalf.ne'

theorem le_targetExponent {m : ℕ} (h : 2 ^ 52 ≤ m) (e : ℤ) :
    e ≤ Format.binary64.targetExponent (totalExponent m e) := by
  have hlog : 52 ≤ m.log2 := (Nat.le_log2 (by omega)).mpr h
  rw [targetExponent_eq]
  omega

/-- A product is rounded correctly if the factors have 53 digits together. -/
theorem mul_eq (hb : b.Proper) (s₁ s₂ : Sign) {m₁ m₂ : ℕ} {e₁ e₂ : ℤ} (h₁ : 0 < m₁) (h₂ : 0 < m₂)
    (hfull : 2 ^ 52 ≤ m₁ * m₂) (hv : (Interval.ofBinary b).Covers (m₁ * m₂ * 2 ^ (e₁ + e₂))) :
    UnpackedFloat.mul Format.binary64 (.finite s₁ m₁ e₁ h₁) (.finite s₂ m₂ e₂ h₂) =
      .finite (s₁ * s₂) b.mantissa b.exponent hb.pos := by
  refine roundWithAccuracy_eq hb hv ?_ (le_targetExponent hfull _)
  rw [mul_div_cancel_right₀ _ (zpow_ne_zero _ two_ne_zero), ← Nat.cast_mul]
  exact locates_exact _

/-- A quotient is computed with enough digits. -/
theorem exists_div_eq (s₁ s₂ : Sign) {m₁ m₂ : ℕ} (e₁ e₂ : ℤ) (h₁ : 0 < m₁) (h₂ : 0 < m₂) :
    ∃ m e acc, UnpackedFloat.div Format.binary64 (.finite s₁ m₁ e₁ h₁) (.finite s₂ m₂ e₂ h₂) =
        roundWithAccuracy Format.binary64 (s₁ / s₂) m e acc ∧
      Locates (ExtendedMantissa.ofMantissaAndAccuracy m acc)
        (m₁ / m₂ * 2 ^ (e₁ - e₂) / 2 ^ e) ∧
      e ≤ Format.binary64.targetExponent (totalExponent m e) := by
  set t := min (e₁ - e₂)
    (Format.binary64.targetExponent (totalExponent m₁ e₁ - totalExponent m₂ e₂)) with ht
  set k := (e₁ - e₂ - t).toNat with hk
  have hpow : ((m₁ <<< k : ℕ) : ℚ) = m₁ * 2 ^ (e₁ - e₂ - t) := by
    rw [Nat.shiftLeft_eq, Nat.cast_mul, Nat.cast_pow, Nat.cast_two, ← zpow_natCast, hk,
      Int.toNat_of_nonneg (by omega)]
  refine ⟨(m₁ <<< k) / m₂, t, accuracyOfFraction ((m₁ <<< k) % m₂) m₂, rfl, ?_, ?_⟩
  · have hval : (m₁ / m₂ * 2 ^ (e₁ - e₂) : ℚ) / 2 ^ t = (m₁ <<< k : ℕ) / m₂ := by
      rw [hpow, zpow_sub₀ two_ne_zero (e₁ - e₂) t]
      ring
    rw [hval]
    exact locates_div _ h₂
  · rw [targetExponent_eq]
    by_cases hbottom : t ≤ -1074
    · omega
    have hmin : Format.binary64.minExponent = -1074 := by decide
    have hbits : (Format.binary64.mantissaBits : ℤ) = 53 := rfl
    rw [Format.targetExponent, totalExponent, totalExponent, hmin, hbits] at ht
    have hmore : m₂.log2 + 53 ≤ m₁.log2 + k := by omega
    have hquot : 2 ^ 52 ≤ (m₁ <<< k) / m₂ := by
      rw [Nat.le_div_iff_mul_le h₂, Nat.shiftLeft_eq]
      calc 2 ^ 52 * m₂ ≤ 2 ^ 52 * 2 ^ (m₂.log2 + 1) :=
            Nat.mul_le_mul_left _ Nat.lt_log2_self.le
        _ = 2 ^ (m₂.log2 + 53) := by ring
        _ ≤ 2 ^ (m₁.log2 + k) := Nat.pow_le_pow_right two_pos hmore
        _ = 2 ^ m₁.log2 * 2 ^ k := pow_add _ _ _
        _ ≤ m₁ * 2 ^ k := Nat.mul_le_mul_right _ (Nat.log2_self_le h₁.ne')
    have hlog : 52 ≤ ((m₁ <<< k) / m₂).log2 := (Nat.le_log2 (by omega)).mpr hquot
    omega

/-- So it is rounded correctly. -/
theorem div_eq (hb : b.Proper) (s₁ s₂ : Sign) {m₁ m₂ : ℕ} {e₁ e₂ : ℤ} (h₁ : 0 < m₁) (h₂ : 0 < m₂)
    (hv : (Interval.ofBinary b).Covers (m₁ / m₂ * 2 ^ (e₁ - e₂))) :
    UnpackedFloat.div Format.binary64 (.finite s₁ m₁ e₁ h₁) (.finite s₂ m₂ e₂ h₂) =
      .finite (s₁ / s₂) b.mantissa b.exponent hb.pos := by
  obtain ⟨m, e, acc, hdiv, hlocates, he⟩ := exists_div_eq s₁ s₂ e₁ e₂ h₁ h₂
  rw [hdiv]
  exact roundWithAccuracy_eq hb hv hlocates he

/-! ## 5. Decimals and naturals -/

theorem zpow_ten_le {p : ℤ} (hp : p ≤ 0) : (10 : ℚ) ^ p ≤ 2 ^ (3 * p) := by
  rw [zpow_mul]
  obtain ⟨n, rfl⟩ := Int.exists_eq_neg_ofNat hp
  rw [zpow_neg, zpow_neg, zpow_natCast, zpow_natCast]
  exact inv_anti₀ (by positivity) (pow_le_pow_left₀ (by norm_num) (by norm_num) n)

theorem le_zpow_ten {p : ℤ} (hp : 0 ≤ p) : 2 ^ (3 * p) ≤ (10 : ℚ) ^ p := by
  rw [zpow_mul]
  obtain ⟨n, rfl⟩ := Int.eq_ofNat_of_zero_le hp
  rw [zpow_natCast, zpow_natCast]
  exact pow_le_pow_left₀ (by norm_num) (by norm_num) n

/-- The least double is half of what is rounded to it at least. -/
theorem Interval.Covers.zpow_le (h : (Interval.ofBinary b).Covers v) (hb : b.Proper) :
    2 ^ (-1075 : ℤ) ≤ v := by
  have hp : (0 : ℚ) < 2 ^ b.exponent := zpow_pos two_pos _
  have hone : (1 : ℚ) ≤ b.mantissa := by exact_mod_cast hb.pos
  calc (2 : ℚ) ^ (-1075 : ℤ) = 1 / 2 * 2 ^ (-1074 : ℤ) := by
        rw [show (-1074 : ℤ) = -1075 + 1 by norm_num, zpow_add_one₀ two_ne_zero]
        ring
    _ ≤ 1 / 2 * 2 ^ b.exponent :=
      mul_le_mul_of_nonneg_left (zpow_le_zpow_right₀ one_le_two hb.least) (by norm_num)
    _ ≤ (b.mantissa - 1 / 2) * 2 ^ b.exponent := mul_le_mul_of_nonneg_right (by linarith) hp.le
    _ ≤ v := (le_div_iff₀ hp).mp (h.nearest hb).lower

section

variable {n : ℕ} {p : ℤ}

/-- A decimal that is rounded to a double has a place within bounds. -/
theorem Interval.Covers.place_le (h : (Interval.ofBinary b).Covers (n * 10 ^ p)) (hb : b.Proper)
    (hn : 0 < n) : p ≤ 400 := by
  by_contra hp
  have hone : (1 : ℚ) ≤ n := by exact_mod_cast hn
  have hten : (0 : ℚ) < 10 ^ p := by positivity
  have hmost := hb.most
  have hlt : (2 : ℚ) ^ (3 * p) < 2 ^ (b.exponent + 53) :=
    calc (2 : ℚ) ^ (3 * p) ≤ 10 ^ p := le_zpow_ten (by omega)
      _ ≤ n * 10 ^ p := le_mul_of_one_le_left hten.le hone
      _ < 2 ^ (b.exponent + 53) := h.lt_zpow hb
  have hexp := (zpow_lt_zpow_iff_right₀ one_lt_two).mp hlt
  omega

theorem Interval.Covers.neg_place_le (h : (Interval.ofBinary b).Covers (n * 10 ^ p))
    (hb : b.Proper) : -p ≤ n.log2 + 400 := by
  by_contra hp
  have hten : (0 : ℚ) < 2 ^ (3 * p) := by positivity
  have hlog : (n : ℚ) < 2 ^ (n.log2 + 1) := by exact_mod_cast Nat.lt_log2_self
  have hlt : (2 : ℚ) ^ (-1075 : ℤ) < 2 ^ (3 * p + (n.log2 + 1 : ℕ)) :=
    calc (2 : ℚ) ^ (-1075 : ℤ) ≤ n * 10 ^ p := h.zpow_le hb
      _ ≤ n * 2 ^ (3 * p) := mul_le_mul_of_nonneg_left (zpow_ten_le (by omega)) (Nat.cast_nonneg n)
      _ < 2 ^ (n.log2 + 1) * 2 ^ (3 * p) := mul_lt_mul_of_pos_right hlog hten
      _ = 2 ^ (3 * p + (n.log2 + 1 : ℕ)) := by rw [mul_comm, zpow_add_nat]
  have hexp := (zpow_lt_zpow_iff_right₀ one_lt_two).mp hlt
  omega

/-- A decimal is rounded correctly. -/
theorem ofScientific_eq (hb : b.Proper) (hn : 0 < n)
    (hv : (Interval.ofBinary b).Covers (n * 10 ^ p)) :
    UnpackedFloat.ofScientific Format.binary64 n p =
      .finite .positive b.mantissa b.exponent hb.pos := by
  have hmost := hv.place_le hb hn
  have hleast := hv.neg_place_le hb
  rw [UnpackedFloat.ofScientific, dif_neg hn.ne', if_neg (by norm_num; omega),
    if_neg (by norm_num; omega)]
  split
  next hp =>
    have hbits : Format.binary64.mantissaBits = 53 := rfl
    refine mul_eq hb .positive .positive _ _ ?_ ?_
    · rw [hbits, Nat.shiftLeft_eq]
      calc 2 ^ 52 ≤ 1 * 2 ^ 53 * 1 := by norm_num
        _ ≤ n * 2 ^ 53 * 10 ^ p.toNat :=
          Nat.mul_le_mul (Nat.mul_le_mul_right _ hn) (Nat.one_le_pow _ _ (by norm_num))
    · have hval : ((n <<< 53 : ℕ) : ℚ) * (10 ^ p.toNat : ℕ) * 2 ^ (-(53 : ℕ) + 0 : ℤ) =
          n * 10 ^ p := by
        rw [Nat.shiftLeft_eq, add_zero, zpow_neg, zpow_natCast]
        push_cast
        rw [← zpow_natCast (10 : ℚ), Int.toNat_of_nonneg hp]
        field_simp
        norm_num
      rw [hbits, hval]
      exact hv
  next hp =>
    refine div_eq hb .positive .positive _ _ ?_
    have hval : (n : ℚ) / (10 ^ (-p).toNat : ℕ) * 2 ^ (0 - 0 : ℤ) = n * 10 ^ p := by
      rw [sub_self, zpow_zero, mul_one, Nat.cast_pow, Nat.cast_ofNat, ← zpow_natCast,
        Int.toNat_of_nonneg (by omega), zpow_neg, div_inv_eq_mul]
    rw [hval]
    exact hv

end

/-- A natural that 53 digits hold, in the form of a double. -/
def Binary.ofNat (n : ℕ) : Binary := ⟨false, n * 2 ^ (52 - n.log2), n.log2 - 52⟩

theorem Binary.proper_ofNat {n : ℕ} (hn : 0 < n) (hlt : n < 2 ^ 53) : (Binary.ofNat n).Proper := by
  have hlog : n.log2 < 53 := (Nat.log2_lt hn.ne').mpr hlt
  have hpow : (0 : ℕ) < 2 ^ (52 - n.log2) := Nat.pow_pos two_pos
  have hexp : (Binary.ofNat n).exponent = n.log2 - 52 := rfl
  refine ⟨Nat.mul_pos hn hpow, ?_, by omega, by omega, .inl ?_⟩
  · calc n * 2 ^ (52 - n.log2) < 2 ^ (n.log2 + 1) * 2 ^ (52 - n.log2) :=
          Nat.mul_lt_mul_of_pos_right Nat.lt_log2_self hpow
      _ = 2 ^ 53 := by rw [← pow_add]; congr 1; omega
  · calc 2 ^ 52 = 2 ^ n.log2 * 2 ^ (52 - n.log2) := by rw [← pow_add]; congr 1; omega
      _ ≤ n * 2 ^ (52 - n.log2) := Nat.mul_le_mul_right _ (Nat.log2_self_le hn.ne')

theorem Binary.value_ofNat {n : ℕ} (hn : 0 < n) (hlt : n < 2 ^ 53) :
    ((Binary.ofNat n).mantissa : ℚ) * 2 ^ (Binary.ofNat n).exponent = n := by
  have hlog : n.log2 < 53 := (Nat.log2_lt hn.ne').mpr hlt
  have hexp : (Binary.ofNat n).exponent = -(52 - n.log2 : ℕ) := by
    change (n.log2 : ℤ) - 52 = _
    omega
  have hmant : (Binary.ofNat n).mantissa = n * 2 ^ (52 - n.log2) := rfl
  rw [hexp, hmant, Nat.cast_mul, Nat.cast_pow, Nat.cast_two, zpow_neg, zpow_natCast,
    mul_inv_cancel_right₀ (pow_ne_zero _ two_ne_zero)]

/-- A double is in its own interval. -/
theorem Interval.covers_self (hb : b.Proper) :
    (Interval.ofBinary b).Covers (b.mantissa * 2 ^ b.exponent) := by
  have hp : (0 : ℚ) < 2 ^ b.exponent := zpow_pos two_pos _
  have hlow : ((Interval.ofBinary b).low : ℚ) * (2 ^ b.exponent / 4) <
      b.mantissa * 2 ^ b.exponent := by
    rw [cast_low hb]
    split <;> linarith
  have hhigh : (b.mantissa : ℚ) * 2 ^ b.exponent <
      (Interval.ofBinary b).high * (2 ^ b.exponent / 4) := by
    rw [cast_high]
    linarith
  rw [← zpow_scale] at hlow hhigh
  refine ⟨hlow.le, hhigh.le, ?_⟩
  rintro (h | h)
  · exact absurd h hlow.ne'
  · exact absurd h hhigh.ne

/-- A natural that 53 digits hold is not rounded. -/
theorem ofNat_eq {n : ℕ} (hn : 0 < n) (hlt : n < 2 ^ 53) :
    UnpackedFloat.ofNat Format.binary64 n = .finite .positive (Binary.ofNat n).mantissa
      (Binary.ofNat n).exponent (Binary.proper_ofNat hn hlt).pos := by
  have hlog : n.log2 < 53 := (Nat.log2_lt hn.ne').mpr hlt
  have htarget : Format.binary64.targetExponent (totalExponent n 0) = n.log2 - 52 := by
    rw [targetExponent_eq]
    omega
  have hshift : (0 - ((n.log2 : ℤ) - 52)).toNat = 52 - n.log2 := by omega
  have hb := Binary.proper_ofNat hn hlt
  have hexp : (0 : ℤ) - (52 - n.log2 : ℕ) = (Binary.ofNat n).exponent := by
    change _ = (n.log2 : ℤ) - 52
    omega
  have hcompare : compare (n : ℤ) 0 = .gt := compare_gt_iff_gt.mpr (Int.natCast_pos.mpr hn)
  have hround : UnpackedFloat.ofNat Format.binary64 n = round Format.binary64 .positive n 0 := by
    rw [UnpackedFloat.ofNat, UnpackedFloat.ofInt, UnpackedFloat.normalize, hcompare]
    rfl
  rw [hround, UnpackedFloat.round, htarget, decreaseExponent, hshift]
  dsimp only
  rw [hexp, Nat.shiftLeft_eq]
  refine roundWithAccuracy_eq hb (Interval.covers_self hb) ?_ hb.targetExponent.ge
  rw [mul_div_cancel_right₀ _ (zpow_ne_zero _ two_ne_zero)]
  exact locates_exact _

end

end Decimal
end Graded
