/-
# The search for the fewest digits

The decimal that the search comes to lies in the interval of the double that it starts from
(`covers_significand`), so that this double is read back from it.

Of two neighbours on a grid that is finer than the interval is wide, one lies in the interval.  Each
grid is ten times finer than the one before, and the seventeenth is fine enough: its points are at
most the `10 ^ 16`th part of the value apart, and the interval of a number of 53 digits is wider.
-/
import Mathlib
import Graded.Proofs.Rounding

namespace Graded
namespace Decimal

/-! ## 1. Comparing decimals with binary numbers -/

theorem cast_tenTo (n : ℕ) : (tenTo n : ℚ) = 10 ^ n := by
  rw [tenTo]
  exact_mod_cast rfl

theorem cast_twoTo (n : ℕ) : (twoTo n : ℚ) = 2 ^ n := by
  rw [twoTo]
  exact_mod_cast rfl

/-- A power with the whole powers of both signs brought to one side. -/
theorem zpow_mul_cancel {a : ℚ} (ha : a ≠ 0) (p : ℤ) :
    a ^ p * (if 0 ≤ p then 1 else a ^ (-p).toNat) = if 0 ≤ p then a ^ p.toNat else 1 := by
  split
  next hp => rw [mul_one, ← zpow_natCast, Int.toNat_of_nonneg hp]
  next hp => rw [← zpow_natCast, Int.toNat_of_nonneg (by omega), ← zpow_add₀ ha, add_neg_cancel,
    zpow_zero]

/-- Both sides of the comparison are multiplied by the same number. -/
theorem exists_compareAt (d : ℕ) (p : ℤ) (n : ℕ) (s : ℤ) :
    ∃ l r : ℕ, ∃ c : ℚ, 0 < c ∧ Interval.compareAt d p n s = compare l r ∧
      (l : ℚ) = d * 10 ^ p * c ∧ (r : ℚ) = n * 2 ^ s * c := by
  refine ⟨d * (if 0 ≤ p then tenTo p.toNat else 1) * (if 0 ≤ s then 1 else twoTo (-s).toNat),
    n * (if 0 ≤ s then twoTo s.toNat else 1) * (if 0 ≤ p then 1 else tenTo (-p).toNat),
    (if 0 ≤ p then 1 else 10 ^ (-p).toNat) * (if 0 ≤ s then 1 else 2 ^ (-s).toNat), ?_, rfl, ?_, ?_⟩
  · refine mul_pos ?_ ?_
    · split <;> positivity
    · split <;> positivity
  · have hten := zpow_mul_cancel (by norm_num : (10 : ℚ) ≠ 0) p
    push_cast [cast_tenTo, cast_twoTo]
    rw [← hten]
    ring
  · have htwo := zpow_mul_cancel (two_ne_zero : (2 : ℚ) ≠ 0) s
    push_cast [cast_tenTo, cast_twoTo]
    rw [← htwo]
    ring

section

variable {d : ℕ} {p : ℤ} {n : ℕ} {s : ℤ}

theorem compareAt_eq_lt : Interval.compareAt d p n s = .lt ↔ (d : ℚ) * 10 ^ p < n * 2 ^ s := by
  obtain ⟨l, r, c, hc, hcompare, hl, hr⟩ := exists_compareAt d p n s
  rw [hcompare, Nat.compare_eq_lt, ← Nat.cast_lt (α := ℚ), hl, hr, mul_lt_mul_iff_left₀ hc]

theorem compareAt_eq_gt : Interval.compareAt d p n s = .gt ↔ (n : ℚ) * 2 ^ s < d * 10 ^ p := by
  obtain ⟨l, r, c, hc, hcompare, hl, hr⟩ := exists_compareAt d p n s
  rw [hcompare, Nat.compare_eq_gt, ← Nat.cast_lt (α := ℚ), hl, hr, mul_lt_mul_iff_left₀ hc]

theorem compareAt_eq_eq : Interval.compareAt d p n s = .eq ↔ (d : ℚ) * 10 ^ p = n * 2 ^ s := by
  obtain ⟨l, r, c, hc, hcompare, hl, hr⟩ := exists_compareAt d p n s
  rw [hcompare, Nat.compare_eq_eq, ← Nat.cast_inj (R := ℚ), hl, hr, mul_left_inj' hc.ne']

end

/-- The test of an interval is what it means to lie in it. -/
theorem Interval.holds_iff {i : Interval} (hi : i.low ≤ i.high) (d : ℕ) (p : ℤ) :
    i.holds d p = true ↔ i.Covers (d * 10 ^ p) := by
  have hscale : (0 : ℚ) < 2 ^ i.scale := zpow_pos two_pos _
  have hle : (i.low : ℚ) * 2 ^ i.scale ≤ i.high * 2 ^ i.scale :=
    mul_le_mul_of_nonneg_right (Nat.cast_le.mpr hi) hscale.le
  unfold Interval.holds
  split
  next hgt hlt =>
    have hlow := compareAt_eq_gt.mp hgt
    have hhigh := compareAt_eq_lt.mp hlt
    refine iff_of_true rfl ⟨hlow.le, hhigh.le, ?_⟩
    rintro (h | h)
    · exact absurd h hlow.ne'
    · exact absurd h hhigh.ne
  next heq =>
    have hlow := compareAt_eq_eq.mp heq
    exact ⟨fun h => ⟨hlow.ge, hlow.trans_le hle, fun _ => h⟩, fun h => h.closed (.inl hlow)⟩
  next heq _ =>
    have hhigh := compareAt_eq_eq.mp heq
    exact ⟨fun h => ⟨hle.trans_eq hhigh.symm, hhigh.le, fun _ => h⟩, fun h => h.closed (.inr hhigh)⟩
  next hlow hhigh hne =>
    refine iff_of_false Bool.false_ne_true fun h => ?_
    have hgt : (i.low : ℚ) * 2 ^ i.scale < d * 10 ^ p :=
      h.lower.lt_of_ne fun heq => hlow (compareAt_eq_eq.mpr heq.symm)
    have hlt : (d : ℚ) * 10 ^ p < i.high * 2 ^ i.scale :=
      h.upper.lt_of_ne fun heq => hhigh (compareAt_eq_eq.mpr heq)
    exact hne (compareAt_eq_gt.mpr hgt) (compareAt_eq_lt.mpr hlt)

/-! ## 2. Grids -/

/-- The exact value as a quotient. -/
theorem Binary.div_fraction (b : Binary) :
    (b.fraction.1 : ℚ) / b.fraction.2 = b.mantissa * 2 ^ b.exponent := by
  unfold Binary.fraction
  split
  next h =>
    rw [Nat.cast_mul, cast_twoTo, ← zpow_natCast, Int.toNat_of_nonneg h, Nat.cast_one, div_one]
  next h =>
    rw [cast_twoTo, ← zpow_natCast, Int.toNat_of_nonneg (by omega), zpow_neg, div_inv_eq_mul]

theorem div_shift (num den : ℕ) (e : ℤ) :
    ((shift num den e).1 : ℚ) / (shift num den e).2 = num / den / 10 ^ e := by
  unfold shift
  split
  next h => rw [Nat.cast_mul, cast_tenTo, ← zpow_natCast, Int.toNat_of_nonneg h, div_div]
  next h =>
    rw [Nat.cast_mul, cast_tenTo, ← zpow_natCast, Int.toNat_of_nonneg (by omega), zpow_neg,
      ← div_eq_mul_inv, div_right_comm]

theorem roundDiv_eq (n d : ℕ) : roundDiv n d = n / d ∨ roundDiv n d = n / d + 1 := by
  unfold roundDiv
  dsimp only
  split_ifs <;> simp

theorem onGrid?_eq_some {i : Interval} {p : ℤ} {s : Significand} (h : onGrid? i p = some s) :
    s.place = p ∧ i.holds s.digits p = true := by
  unfold onGrid? at h
  dsimp only at h
  split at h
  next hbelow habove =>
    cases h
    refine ⟨rfl, ?_⟩
    rcases roundDiv_eq (shift i.fraction.1 i.fraction.2 p).1 (shift i.fraction.1 i.fraction.2 p).2
      with heq | heq
    · exact heq ▸ hbelow
    · exact heq ▸ habove
  next hbelow _ =>
    cases h
    exact ⟨rfl, hbelow⟩
  next _ habove =>
    cases h
    exact ⟨rfl, habove⟩
  next => cases h

/-- **Of two neighbours on a grid that is finer than the interval is wide, one lies in it**, if the
value lies between them. -/
theorem Interval.holds_or {i : Interval} (hi : i.low < i.value ∧ i.value < i.high) {p : ℤ}
    (hp : (10 : ℚ) ^ p < (i.high - i.low) * 2 ^ i.scale) {k : ℕ}
    (hbelow : (k : ℚ) * 10 ^ p ≤ i.value * 2 ^ i.scale)
    (habove : (i.value : ℚ) * 2 ^ i.scale < (k + 1 : ℕ) * 10 ^ p) :
    i.holds k p = true ∨ i.holds (k + 1) p = true := by
  have hscale : (0 : ℚ) < 2 ^ i.scale := zpow_pos two_pos _
  have hholds := Interval.holds_iff (hi.1.trans hi.2).le
  have hlow : (i.low : ℚ) * 2 ^ i.scale < i.value * 2 ^ i.scale :=
    mul_lt_mul_of_pos_right (Nat.cast_lt.mpr hi.1) hscale
  have hhigh : (i.value : ℚ) * 2 ^ i.scale < i.high * 2 ^ i.scale :=
    mul_lt_mul_of_pos_right (Nat.cast_lt.mpr hi.2) hscale
  by_contra hnone
  rw [not_or, hholds, hholds] at hnone
  have hle : (k : ℚ) * 10 ^ p ≤ i.low * 2 ^ i.scale := by
    by_contra hgt
    refine hnone.1 ⟨(not_le.mp hgt).le, (hbelow.trans_lt hhigh).le, ?_⟩
    rintro (h | h)
    · exact absurd h.le hgt
    · exact absurd h (hbelow.trans_lt hhigh).ne
  have hge : (i.high : ℚ) * 2 ^ i.scale ≤ (k + 1 : ℕ) * 10 ^ p := by
    by_contra hlt
    refine hnone.2 ⟨(hlow.trans habove).le, (not_le.mp hlt).le, ?_⟩
    rintro (h | h)
    · exact absurd h (hlow.trans habove).ne'
    · exact absurd h.ge hlt
  rw [Nat.cast_add_one, add_mul, one_mul] at hge
  linarith

/-- So a grid that is finer than the interval is wide has a point in it. -/
theorem exists_onGrid? {i : Interval} (hi : i.low < i.value ∧ i.value < i.high) {p : ℤ}
    (hp : (10 : ℚ) ^ p < (i.high - i.low) * 2 ^ i.scale) : ∃ s, onGrid? i p = some s := by
  have hten : (0 : ℚ) < 10 ^ p := zpow_pos (by norm_num) _
  set n := (shift i.fraction.1 i.fraction.2 p).1 with hn
  set d := (shift i.fraction.1 i.fraction.2 p).2 with hd
  have hvalue : (n : ℚ) / d = i.value * 2 ^ i.scale / 10 ^ p := by
    rw [hn, hd, div_shift, Interval.fraction, Binary.div_fraction]
  -- the neighbours of the value on the grid
  have hbelow : ((n / d : ℕ) : ℚ) * 10 ^ p ≤ i.value * 2 ^ i.scale := by
    rw [← le_div_iff₀ hten, ← hvalue]
    exact Nat.cast_div_le
  have habove : (i.value : ℚ) * 2 ^ i.scale < (n / d + 1 : ℕ) * 10 ^ p := by
    rw [← div_lt_iff₀ hten, ← hvalue, ← Nat.floor_div_eq_div (K := ℚ), Nat.cast_add_one]
    exact Nat.lt_floor_add_one _
  have hsome := Interval.holds_or hi hp hbelow habove
  unfold onGrid?
  dsimp only
  cases hb : i.holds (n / d) p with
  | true =>
    cases ha : i.holds (n / d + 1) p with
    | true => exact ⟨_, rfl⟩
    | false => exact ⟨_, rfl⟩
  | false =>
    rw [hb] at hsome
    rw [hsome.resolve_left Bool.false_ne_true]
    exact ⟨_, rfl⟩

/-! ## 3. The search -/

theorem width_eq (n : ℕ) : width n = (Nat.toDigits 10 n).length := by
  rw [width, Nat.toString_eq_ofList_toDigits, String.length_ofList]

theorem width_pos (n : ℕ) : 0 < width n := by
  rw [width_eq]
  exact Nat.length_toDigits_pos

theorem width_le_iff {n k : ℕ} (hk : 0 < k) : width n ≤ k ↔ n < 10 ^ k := by
  rw [width_eq]
  exact Nat.length_toDigits_le_iff (by norm_num) hk

theorem lt_pow_width (n : ℕ) : n < 10 ^ width n := (width_le_iff (width_pos n)).mp le_rfl

theorem pow_width_le {n : ℕ} (h : 0 < n) : 10 ^ (width n - 1) ≤ n := by
  have hpos := width_pos n
  rcases Nat.eq_zero_or_pos (width n - 1) with hzero | hmore
  · rw [hzero, pow_zero]
    exact h
  · by_contra hlt
    have hle := (width_le_iff hmore).mpr (not_le.mp hlt)
    omega

/-- The value has a digit at the place of its first digit. -/
theorem zpow_exponentOf_le {num den : ℕ} (hnum : 0 < num) (hden : 0 < den) :
    (10 : ℚ) ^ exponentOf num den ≤ num / den := by
  have hden' : (0 : ℚ) < den := Nat.cast_pos.mpr hden
  unfold exponentOf
  split
  next hle =>
    have hquot : 0 < num / den := Nat.div_pos hle hden
    have hwidth : (width (num / den) : ℤ) - 1 = (width (num / den) - 1 : ℕ) := by
      have hpos := width_pos (num / den)
      omega
    rw [hwidth, zpow_natCast]
    calc (10 : ℚ) ^ (width (num / den) - 1) ≤ (num / den : ℕ) := by
          exact_mod_cast pow_width_le hquot
      _ ≤ num / den := Nat.cast_div_le
  next hgt =>
    have hlt : (den - 1) / num < 10 ^ width ((den - 1) / num) := lt_pow_width _
    have hmul : den ≤ num * 10 ^ width ((den - 1) / num) := by
      have h := (Nat.div_lt_iff_lt_mul hnum).mp hlt
      rw [Nat.mul_comm] at h
      omega
    rw [zpow_neg, zpow_natCast, inv_eq_one_div, div_le_div_iff₀ (by positivity) hden', one_mul]
    exact_mod_cast hmul

theorem ends_ofBinary {b : Binary} (hb : b.Proper) :
    (Interval.ofBinary b).low < (Interval.ofBinary b).value ∧
      (Interval.ofBinary b).value < (Interval.ofBinary b).high := by
  have hpos := hb.pos
  refine ⟨?_, Nat.lt_add_of_pos_right two_pos⟩
  change (if b.mantissa = twoTo 52 ∧ -1074 < b.exponent then 4 * b.mantissa - 1
    else 4 * b.mantissa - 2) < 4 * b.mantissa
  split <;> omega

/-- The seventeenth grid is finer than the interval is wide. -/
theorem zpow_lt_ends {b : Binary} (hb : b.Proper) {e : ℤ}
    (he : (10 : ℚ) ^ e ≤ b.mantissa * 2 ^ b.exponent) :
    (10 : ℚ) ^ (e - 16) < ((Interval.ofBinary b).high - (Interval.ofBinary b).low) *
      2 ^ (Interval.ofBinary b).scale := by
  have hp : (0 : ℚ) < 2 ^ b.exponent := zpow_pos two_pos _
  have hten : (10 : ℚ) ^ (16 : ℤ) = 10 ^ 16 := zpow_natCast 10 16
  have hlt : (b.mantissa : ℚ) < 2 ^ 53 := by exact_mod_cast hb.lt
  have hwide : (b.mantissa : ℚ) <
      ((Interval.ofBinary b).high - (Interval.ofBinary b).low) / 4 * 10 ^ 16 := by
    rw [Interval.cast_low hb, Interval.cast_high]
    split
    next hpower =>
      rw [hpower.1]
      norm_num
    next =>
      refine hlt.trans_le ?_
      ring_nf
      norm_num
  rw [Interval.zpow_scale, zpow_sub₀ (by norm_num), hten, div_lt_iff₀ (by positivity)]
  calc (10 : ℚ) ^ e ≤ b.mantissa * 2 ^ b.exponent := he
    _ < ((Interval.ofBinary b).high - (Interval.ofBinary b).low) / 4 * 10 ^ 16 * 2 ^ b.exponent :=
      mul_lt_mul_of_pos_right hwide hp
    _ = _ := by ring

theorem Interval.div_fraction (b : Binary) :
    ((Interval.ofBinary b).fraction.1 : ℚ) / (Interval.ofBinary b).fraction.2 =
      b.mantissa * 2 ^ b.exponent := by
  have hvalue : ((Interval.ofBinary b).value : ℚ) = 4 * b.mantissa := by
    change ((4 * b.mantissa : ℕ) : ℚ) = _
    push_cast
    rfl
  rw [Interval.fraction, Binary.div_fraction]
  dsimp only
  rw [Interval.zpow_scale, hvalue]
  ring

/-- **The decimal with the fewest digits lies in the interval.** -/
theorem covers_significand {b : Binary} (hb : b.Proper) :
    (Interval.ofBinary b).Covers ((Interval.ofBinary b).significand.digits *
      10 ^ (Interval.ofBinary b).significand.place) := by
  have hends := ends_ofBinary hb
  have hvalue := Interval.div_fraction b
  have hden : 0 < (Interval.ofBinary b).fraction.2 := Binary.fraction_snd_pos _
  have hnum : 0 < (Interval.ofBinary b).fraction.1 := by
    have hmant : (0 : ℚ) < b.mantissa := Nat.cast_pos.mpr hb.pos
    refine Nat.pos_of_ne_zero fun hzero => ?_
    rw [hzero, Nat.cast_zero, zero_div] at hvalue
    exact absurd hvalue (by positivity)
  have hexp := zpow_exponentOf_le hnum hden
  rw [hvalue] at hexp
  set e := exponentOf (Interval.ofBinary b).fraction.1 (Interval.ofBinary b).fraction.2 with he
  unfold Interval.significand
  dsimp only
  rw [← he]
  split
  next s hs =>
    obtain ⟨k, -, hk⟩ := List.exists_of_findSome?_eq_some hs
    obtain ⟨hplace, hholds⟩ := onGrid?_eq_some hk
    rw [hplace]
    exact (Interval.holds_iff (hends.1.trans hends.2).le _ _).mp hholds
  next hnone =>
    obtain ⟨s, hs⟩ : ∃ s, onGrid? (Interval.ofBinary b) (e - (16 : ℕ)) = some s :=
      exists_onGrid? hends (zpow_lt_ends hb hexp)
    have h := List.findSome?_eq_none_iff.mp hnone 16 (by simp)
    rw [hs] at h
    cases h

/-- So it is positive. -/
theorem significand_pos {b : Binary} (hb : b.Proper) :
    0 < (Interval.ofBinary b).significand.digits := by
  have hv := (covers_significand hb).zpow_le hb
  refine Nat.pos_of_ne_zero fun hzero => ?_
  rw [hzero, Nat.cast_zero, zero_mul] at hv
  exact absurd hv (not_le.mpr (zpow_pos two_pos _))

end Decimal
end Graded
