/-
# Special values

Besides the finite numbers, doubles have two infinities and a number that is undefined.  Which
results are undefined is known from these special values alone, however the finite results are
rounded: a difference of infinities, an infinity times zero, and the quotients `0 / 0` and `∞ / ∞`
(`Scalar.Special`).

One fact about rounding is needed beside them: a difference of unlike numbers is never rounded to
zero (`nonzero_sub`).  It is a multiple of the least double, and such a number keeps a digit
(`nonzero_round`).

The exponential and the power of doubles are not computed here.  So the rules are proved for doubles
with any exponential and any power (`DoubleWith`) that are as careful with undefined operands as
these two are (`special_doubleWith`).
-/
import Graded.Proofs.Means

namespace Graded

/-! ## 1. Rules for special values -/

/-- A number that is neither undefined nor infinite. -/
def Scalar.IsFinite {α : Type} [Scalar α] (x : α) : Prop :=
  undefined x = false ∧ isInfinite x = false

/-- When the result of an operation is undefined.  The exponential is undefined nowhere else than
its operand; of the power, an undefined base does not matter to the exponent 0, and an undefined
exponent does not matter to the base 1. -/
structure Scalar.Special (α : Type) [Scalar α] : Prop extends Scalar.Comparable α where
  beq_iff : ∀ {x y : α}, (x == y) = true ↔ x ≤ y ∧ y ≤ x
  beq_zero_of_isInfinite : ∀ {x : α}, isInfinite x = true → (x == 0) = false
  isFinite_one : IsFinite (1 : α)
  isFinite_two : IsFinite (2.0 : α)
  two_beq_zero : ((2.0 : α) == 0) = false
  isInfinite_two_mul : ∀ {x : α}, isInfinite x = true → isInfinite (2.0 * x) = true
  undefined_neg : ∀ x : α, undefined (-x) = undefined x
  undefined_magnitude : ∀ x : α, undefined (magnitude x) = undefined x
  magnitude_not_neg : ∀ x : α, ¬ magnitude x < 0
  undefined_add : ∀ {x : α} (y : α), isInfinite x = false →
    undefined (x + y) = (undefined x || undefined y)
  undefined_sub : ∀ {x : α} (y : α), isInfinite x = false →
    undefined (x - y) = (undefined x || undefined y)
  sub_of_lt : ∀ {x y : α}, x < y → undefined (y - x) = false ∧ (y - x == 0) = false
  undefined_mul : ∀ x y : α, undefined (x * y) =
    (undefined x || undefined y || isInfinite x && y == 0 || x == 0 && isInfinite y)
  undefined_div : ∀ x y : α, undefined (x / y) =
    (undefined x || undefined y || isInfinite x && isInfinite y || x == 0 && y == 0)
  undefined_exp : ∀ x : α, undefined (exp x) = undefined x
  undefined_power : ∀ {x : α} (y : α), ¬ x < 0 →
    undefined (power x y) = (undefined x && !(y == 0) || undefined y && !(x == 1))

namespace Decimal

open Float.Model Float.Model.UnpackedFloat

/-! ## 2. Undefined results -/

section

variable {u v : UnpackedFloat}

def isZero : UnpackedFloat → Bool
  | .zero _ => true
  | _ => false

theorem isNaN_roundWithAccuracy (s : Sign) (m : ℕ) (e : ℤ) (acc : Accuracy) :
    (roundWithAccuracy Format.binary64 s m e acc).isNaN = false := by
  simp only [roundWithAccuracy]
  split <;> rfl

theorem isNaN_normalize (m e : ℤ) (s : Sign) :
    (UnpackedFloat.normalize Format.binary64 m e s).isNaN = false := by
  unfold UnpackedFloat.normalize
  split
  · exact isNaN_roundWithAccuracy _ _ _ _
  · rfl
  · exact isNaN_roundWithAccuracy _ _ _ _

theorem isNaN_add (h : u.isInf = false) :
    (UnpackedFloat.add Format.binary64 u v).isNaN = (u.isNaN || v.isNaN) := by
  cases u with
  | notANumber => rfl
  | infinity s => cases h
  | zero s =>
    cases v with
    | notANumber | infinity | finite => rfl
    | zero t => cases s <;> cases t <;> rfl
  | finite s m e hm =>
    cases v with
    | notANumber | infinity | zero => rfl
    | finite t n d hn => exact isNaN_normalize _ _ _

theorem isNaN_sub (h : u.isInf = false) :
    (UnpackedFloat.sub Format.binary64 u v).isNaN = (u.isNaN || v.isNaN) := by
  cases u with
  | notANumber => rfl
  | infinity s => cases h
  | zero s =>
    cases v with
    | notANumber | infinity | finite => rfl
    | zero t => cases s <;> cases t <;> rfl
  | finite s m e hm =>
    cases v with
    | notANumber | infinity | zero => rfl
    | finite t n d hn => exact isNaN_normalize _ _ _

theorem isNaN_mul (u v : UnpackedFloat) : (UnpackedFloat.mul Format.binary64 u v).isNaN =
    (u.isNaN || v.isNaN || u.isInf && isZero v || isZero u && v.isInf) := by
  cases u with
  | notANumber => rfl
  | infinity s => cases v <;> rfl
  | zero s => cases v <;> rfl
  | finite s m e hm =>
    cases v with
    | notANumber | infinity | zero => rfl
    | finite t n d hn => exact isNaN_roundWithAccuracy _ _ _ _

theorem isNaN_div (u v : UnpackedFloat) : (UnpackedFloat.div Format.binary64 u v).isNaN =
    (u.isNaN || v.isNaN || u.isInf && v.isInf || isZero u && isZero v) := by
  cases u with
  | notANumber => rfl
  | infinity s => cases v <;> rfl
  | zero s => cases v <;> rfl
  | finite s m e hm =>
    cases v with
    | notANumber | infinity | zero => rfl
    | finite t n d hn => exact isNaN_roundWithAccuracy _ _ _ _

/-! ## 3. Packing -/

theorem exists_signOf (s : Sign) : ∃ negative, s = signOf negative := by
  cases s with
  | negative => exact ⟨true, rfl⟩
  | positive => exact ⟨false, rfl⟩

/-- A pattern is undefined only by its exponent and its fraction. -/
theorem datum_packComponents_ne {s : Sign} {e : BitVec 11} {m : BitVec 52}
    (h : e.toNat = 2047 → m.toNat = 0) :
    Datum.ofBits (UInt64.ofBitVec (packComponents Format.binary64 s e m)) ≠ .undefined := by
  obtain ⟨negative, rfl⟩ := exists_signOf s
  intro hundefined
  rw [← datum_ofBits, fields_packComponents] at hundefined
  obtain ⟨hexponent, hfraction⟩ := Fields.eq_of_datum_undefined hundefined
  exact hfraction (h hexponent)

/-- What a finite number is packed into: an infinity, or a pattern with another exponent.  If the
number is a multiple of the least double, the pattern has an exponent or a fraction. -/
theorem exists_packComponents (s : Sign) {m : ℕ} (hm : 0 < m) (e : ℤ) :
    ∃ (exponent : BitVec 11) (fraction : BitVec 52),
      UnpackedFloat.pack Format.binary64 (.finite s m e hm) =
        packComponents Format.binary64 s exponent fraction ∧
      (exponent.toNat = 2047 → fraction.toNat = 0) ∧
      (m < 2 ^ 53 → -1074 ≤ e → exponent.toNat = 0 → fraction.toNat ≠ 0) := by
  simp only [UnpackedFloat.pack]
  split
  next => exact ⟨_, _, rfl, fun _ => rfl, fun _ _ h => absurd h (by decide)⟩
  next hinf =>
    change ¬ 2048 ≤ (e + 1023 + 52).toNat + 1 at hinf
    split
    next =>
      have hexponent : (BitVec.ofNat 11 (e + 1023 + 52).toNat).toNat = (e + 1023 + 52).toNat := by
        rw [BitVec.toNat_ofNat]
        omega
      refine ⟨_, _, rfl, fun h => ?_, fun _ hleast h => ?_⟩
      · have hones := hexponent.symm.trans h
        omega
      · have hbottom := hexponent.symm.trans h
        omega
    next hlog =>
      have hlog' : m.log2 ≠ 52 := fun h => hlog (congrArg (· + 1) h)
      refine ⟨_, _, rfl, fun h => absurd h (by decide), fun hlt _ _ => ?_⟩
      have hbits : m.log2 < 53 := (Nat.log2_lt hm.ne').mpr hlt
      have hsub : m < 2 ^ 52 := (Nat.log2_lt hm.ne').mp (by omega)
      rw [BitVec.toNat_ofNat]
      exact (Nat.mod_eq_of_lt hsub).trans_ne hm.ne'

theorem datum_pack_ne (h : u ≠ .notANumber) :
    Datum.ofBits (UInt64.ofBitVec (UnpackedFloat.pack Format.binary64 u)) ≠ .undefined := by
  cases u with
  | notANumber => exact absurd rfl h
  | infinity s => exact datum_packComponents_ne fun _ => rfl
  | zero s => exact datum_packComponents_ne fun _ => rfl
  | finite s m e hm =>
    obtain ⟨exponent, fraction, hpack, hones, -⟩ := exists_packComponents s hm e
    rw [hpack]
    exact datum_packComponents_ne hones

theorem isNaN_unpacked (d : Datum) : d.unpacked.isNaN = true ↔ d = .undefined := by
  cases d with
  | finite b =>
    rw [Datum.unpacked]
    split <;> simp [UnpackedFloat.isNaN]
  | infinite negative => simp [Datum.unpacked, UnpackedFloat.isNaN]
  | undefined => simp [Datum.unpacked, UnpackedFloat.isNaN]

/-- **Packing makes nothing undefined**, and what is undefined stays so. -/
theorem isNaN_pack (u : UnpackedFloat) :
    (Float.ofModel (.pack u)).toModel.unpack.isNaN = u.isNaN := by
  cases hu : u.isNaN with
  | true =>
    obtain rfl : u = .notANumber := by
      cases u with
      | notANumber => rfl
      | infinity | zero | finite => cases hu
    decide +kernel
  | false =>
    have hne : u ≠ .notANumber := by
      rintro rfl
      cases hu
    rw [unpack_toModel, Bool.eq_false_iff, Ne, isNaN_unpacked]
    exact datum_pack_ne hne

theorem Fields.eq_of_isZero_datum {f : Fields} (h : isZero f.datum.unpacked = true) :
    f.exponent = 0 ∧ f.fraction = 0 := by
  unfold Fields.datum at h
  split at h
  next =>
    split at h
    · cases h
    · cases h
  next =>
    split at h
    next hexp =>
      refine ⟨hexp, ?_⟩
      by_contra hfraction
      rw [Datum.unpacked, dif_neg hfraction] at h
      cases h
    next =>
      rw [Datum.unpacked, dif_neg (by dsimp only; omega)] at h
      cases h

/-- A pattern is a zero only by its exponent and its fraction. -/
theorem isZero_packComponents {s : Sign} {e : BitVec 11} {m : BitVec 52}
    (h : e.toNat = 0 → m.toNat ≠ 0) : isZero (Datum.ofBits
      (UInt64.ofBitVec (packComponents Format.binary64 s e m))).unpacked = false := by
  obtain ⟨negative, rfl⟩ := exists_signOf s
  rw [← datum_ofBits, fields_packComponents, Bool.eq_false_iff]
  intro hzero
  obtain ⟨hexponent, hfraction⟩ := Fields.eq_of_isZero_datum hzero
  exact h hexponent hfraction

/-- **A finite number is not packed into a zero**, if it is a multiple of the least double. -/
theorem isZero_pack_finite (s : Sign) {m : ℕ} {e : ℤ} (hm : 0 < m) (hlt : m < 2 ^ 53)
    (hleast : -1074 ≤ e) :
    isZero (Float.ofModel (.pack (.finite s m e hm))).toModel.unpack = false := by
  obtain ⟨exponent, fraction, hpack, -, hnonzero⟩ := exists_packComponents s hm e
  rw [unpack_toModel]
  change isZero (Datum.ofBits (UInt64.ofBitVec
    (UnpackedFloat.pack Format.binary64 (.finite s m e hm)))).unpacked = false
  rw [hpack]
  exact isZero_packComponents (hnonzero hlt hleast)

end

/-! ## 4. Differences -/

section

variable {m m' : ℕ} {e e' : ℤ} {s s' : Sign} {u : UnpackedFloat} {x y : Float}

/-- An infinity, or a multiple of the least double that 53 digits hold. -/
inductive Nonzero : UnpackedFloat → Prop
  | infinity (s : Sign) : Nonzero (.infinity s)
  | finite (s : Sign) {m : ℕ} {e : ℤ} (hm : 0 < m) (hlt : m < 2 ^ 53) (hleast : -1074 ≤ e) :
    Nonzero (.finite s m e hm)

theorem Nonzero.pack (h : Nonzero u) : (Float.ofModel (.pack u)).toModel.unpack.isNaN = false ∧
    isZero (Float.ofModel (.pack u)).toModel.unpack = false := by
  rw [isNaN_pack]
  cases h with
  | infinity s =>
    refine ⟨rfl, ?_⟩
    cases s with
    | positive => decide +kernel
    | negative => decide +kernel
  | finite s hm hlt hleast => exact ⟨rfl, isZero_pack_finite s hm hlt hleast⟩

/-- **A number that is a multiple of the least double is not rounded to zero.** -/
theorem nonzero_round (s : Sign) (hm : 0 < m) (he : -1074 ≤ e) :
    Nonzero (UnpackedFloat.round Format.binary64 s m e) := by
  obtain ⟨m', e', hround, hvalue, he'⟩ := exists_round_eq s hm.ne' e
  have hloc : Locates (ExtendedMantissa.ofMantissaAndAccuracy m' .exact)
      (m * 2 ^ e / 2 ^ e' : ℚ) := by
    rw [← hvalue, mul_div_cancel_right₀ _ (zpow_ne_zero _ two_ne_zero)]
    exact locates_exact m'
  have hle := roundedMantissa_le_pow hloc he'
  have hfull := pow_le_roundedMantissa hloc he'
  have hleast := targetExponent_eq m' e'
  have hsecond := shiftToTargetExponent_of_le .exact he'
  have hpos : 0 < (shiftToTargetExponent Format.binary64 m' e' .exact).1.roundedMantissa := by
    rcases hfull with hbig | hbottom
    · exact lt_of_lt_of_le (by norm_num) hbig
    · refine (hloc.shiftToTargetExponent he').le_roundedMantissa ?_
      rw [hbottom, Nat.cast_one, le_div_iff₀ (zpow_pos two_pos _), one_mul]
      calc (2 : ℚ) ^ (-1074 : ℤ) ≤ 2 ^ e := zpow_le_zpow_right₀ one_le_two he
        _ ≤ m * 2 ^ e := le_mul_of_one_le_left (zpow_pos two_pos _).le (by exact_mod_cast hm)
  rw [hround]
  rcases hle.eq_or_lt with hcarry | hlt
  · rw [roundWithAccuracy_of_shift hcarry hsecond (Nat.pow_pos two_pos) (shift_carry (by omega))]
    exact .finite s _ (by norm_num) (by omega)
  · rw [roundWithAccuracy_of_shift rfl hsecond hpos (shift_of_full hpos hlt (by omega) hfull)]
    exact .finite s hpos hlt (by omega)

theorem nonzero_normalize {d : ℤ} (hd : d ≠ 0) (he : -1074 ≤ e) (s : Sign) :
    Nonzero (UnpackedFloat.normalize Format.binary64 d e s) := by
  rw [UnpackedFloat.normalize]
  split
  next hlt =>
    have hneg : d < 0 := compare_lt_iff_lt.mp hlt
    exact nonzero_round _ (by omega) he
  next heq => exact absurd (compare_eq_iff_eq.mp heq) hd
  next hgt =>
    have hpos : 0 < d := compare_gt_iff_gt.mp hgt
    exact nonzero_round _ (by omega) he

theorem proper_of_unpack {hm : 0 < m} (h : x.toModel.unpack = .finite s m e hm) :
    Binary.Proper ⟨false, m, e⟩ := by
  rw [unpack_toModel] at h
  cases hx : Datum.ofFloat x with
  | finite b =>
    rw [hx, Datum.unpacked] at h
    split at h
    next => cases h
    next hb =>
      cases h
      obtain ⟨hpos, hlt, hleast, hmost, hfull⟩ := proper_of_ofFloat hx hm
      exact ⟨hpos, hlt, hleast, hmost, hfull⟩
  | infinite | undefined =>
    rw [hx] at h
    cases h

/-- In the form of doubles, numbers of one size are written alike. -/
theorem Binary.Proper.eq_of_value_eq (hb : Binary.Proper ⟨false, m, e⟩)
    (hb' : Binary.Proper ⟨false, m', e'⟩) (h : (m * 2 ^ e : ℚ) = m' * 2 ^ e') :
    m = m' ∧ e = e' := by
  have hexp : e = e' := by
    rcases lt_trichotomy e e' with hlt | heq | hlt
    · exact absurd h (lt_of_exponent_lt hb hb' hlt).ne
    · exact heq
    · exact absurd h (lt_of_exponent_lt hb' hb hlt).ne'
  rw [hexp] at h
  exact ⟨by exact_mod_cast mul_right_cancel₀ (zpow_ne_zero _ two_ne_zero) h, hexp⟩

/-- The mantissas of unlike numbers differ, over one exponent as well. -/
theorem apply_sub_ne_zero (hb : Binary.Proper ⟨false, m, e⟩) (hb' : Binary.Proper ⟨false, m', e'⟩)
    (h : s = s' → m = m' → e ≠ e') :
    s.apply (m <<< (e - min e e').toNat : ℕ) - s'.apply (m' <<< (e' - min e e').toNat : ℕ) ≠ 0 := by
  have hpos : 0 < m <<< (e - min e e').toNat := by
    rw [Nat.shiftLeft_eq]
    exact Nat.mul_pos hb.pos (Nat.pow_pos two_pos)
  have hpos' : 0 < m' <<< (e' - min e e').toNat := by
    rw [Nat.shiftLeft_eq]
    exact Nat.mul_pos hb'.pos (Nat.pow_pos two_pos)
  have hlike : s = s' → m <<< (e - min e e').toNat ≠ m' <<< (e' - min e e').toNat := by
    intro hs heq
    have hvalue := cast_shiftLeft_mul m (min_le_left e e')
    rw [heq, cast_shiftLeft_mul m' (min_le_right e e')] at hvalue
    obtain ⟨hm, he⟩ := hb.eq_of_value_eq hb' hvalue.symm
    exact h hs hm he
  cases s with
  | positive =>
    cases s' with
    | positive =>
      have hne := hlike rfl
      simp only [Sign.apply]
      omega
    | negative =>
      simp only [Sign.apply]
      omega
  | negative =>
    cases s' with
    | positive =>
      simp only [Sign.apply]
      omega
    | negative =>
      have hne := hlike rfl
      simp only [Sign.apply]
      omega

/-- **A difference of unlike numbers is not rounded to zero.** -/
theorem nonzero_sub (h : x < y) :
    Nonzero (UnpackedFloat.sub Format.binary64 y.toModel.unpack x.toModel.unpack) := by
  rw [lt_iff_lt, UnpackedFloat.lt, beq_iff_eq] at h
  obtain ⟨hx', hy'⟩ := defined_of_compare h
  cases hx : x.toModel.unpack with
  | notANumber => exact absurd hx hx'
  | infinity s =>
    cases hy : y.toModel.unpack with
    | notANumber => exact absurd hy hy'
    | infinity t =>
      rw [hx, hy] at h
      cases s with
      | positive => cases t <;> cases h
      | negative =>
        cases t with
        | positive => exact .infinity _
        | negative => cases h
    | zero | finite => exact .infinity _
  | zero s =>
    cases hy : y.toModel.unpack with
    | notANumber => exact absurd hy hy'
    | infinity t => exact .infinity _
    | zero t =>
      rw [hx, hy] at h
      cases h
    | finite t n d hn =>
      have hb := proper_of_unpack hy
      exact .finite _ hn hb.lt hb.least
  | finite s m e hm =>
    have hb := proper_of_unpack hx
    cases hy : y.toModel.unpack with
    | notANumber => exact absurd hy hy'
    | infinity t => exact .infinity _
    | zero t => exact .finite _ hm hb.lt hb.least
    | finite t n d hn =>
      have hb' := proper_of_unpack hy
      refine nonzero_normalize (apply_sub_ne_zero hb' hb ?_) (le_min hb'.least hb.least) _
      rintro rfl rfl rfl
      rw [hx, hy, compare_self UnpackedFloat.noConfusion] at h
      cases h

theorem beq_zero_eq (x : Float) : (x == 0) = isZero x.toModel.unpack := by
  have hbeq : (x == 0) = x.toModel.unpack.beq (0 : Float).toModel.unpack := rfl
  rw [hbeq, unpack_zero]
  cases x.toModel.unpack with
  | notANumber => rfl
  | infinity s => cases s <;> rfl
  | zero s => rfl
  | finite s m e hm => cases s <;> rfl

theorem undefined_pack (u : UnpackedFloat) : Scalar.undefined (Float.ofModel (.pack u)) = u.isNaN :=
  (undefined_eq _).trans (isNaN_pack u)

theorem sub_of_lt (h : x < y) : Scalar.undefined (y - x) = false ∧ (y - x == 0) = false := by
  rw [undefined_eq, beq_zero_eq]
  exact (nonzero_sub h).pack

/-- Doubles are equal if each is at most the other. -/
theorem beq_iff_le : (x == y) = true ↔ x ≤ y ∧ y ≤ x := by
  have hbeq : (x == y) = x.toModel.unpack.beq y.toModel.unpack := rfl
  rw [hbeq, UnpackedFloat.beq, beq_iff_eq]
  by_cases hdefined : Scalar.undefined x = false ∧ Scalar.undefined y = false
  · obtain ⟨hx, hy⟩ := hdefined
    rw [compare_eq_cmp (undefined_eq_false_iff.mp hx) (undefined_eq_false_iff.mp hy),
      le_iff_place hx hy, le_iff_place hy hx, Option.some_inj, cmp_eq_eq_iff, le_antisymm_iff]
  · refine iff_of_false (fun h => hdefined ?_) fun h => hdefined (comparable_double.defined h.1)
    rw [undefined_eq_false_iff, undefined_eq_false_iff]
    exact defined_of_compare h

theorem abs_not_neg (x : Float) : ¬ x.abs < 0 := by
  have hsize : ∀ {v : ℚ}, Amounts x.abs.toModel.unpack v → ¬ x.abs < 0 := by
    intro v hv hlt
    refine (comparable_double.ordered.lt_iff hv.defined amounts_zero.defined).mp hlt ?_
    exact (amounts_zero.le_iff hv).mpr hv.nonneg
  cases h : Datum.ofFloat x with
  | undefined =>
    obtain rfl := eq_of_undefined h
    decide +kernel
  | infinite negative =>
    obtain rfl := eq_of_infinite h
    cases negative with
    | false => decide +kernel
    | true => decide +kernel
  | finite b =>
    obtain ⟨negative, m, e⟩ := b
    have habs : x.abs = .ofModel (.pack x.toModel.unpack.abs) := rfl
    rcases Nat.eq_zero_or_pos m with rfl | hm
    · rw [unpack_of_zero h] at habs
      exact hsize (habs ▸ (Amounts.zero .positive).pack)
    · have hb := proper_of_unpack (unpack_of_finite h hm)
      rw [unpack_of_finite h hm] at habs
      exact hsize (habs ▸ (Amounts.finite hb).pack)

end

/-! ## 5. Doubles -/

section

variable {x y : Float}

theorem isFinite_one : Scalar.IsFinite (1 : Float) := ⟨by decide +kernel, by decide +kernel⟩

theorem isFinite_two : Scalar.IsFinite (2.0 : Float) := ⟨by decide +kernel, by decide +kernel⟩

theorem beq_zero_of_isInfinite (h : Scalar.isInfinite x = true) : (x == 0) = false := by
  have hinf : x.toModel.unpack.isInf = true := h
  rw [beq_zero_eq]
  cases hx : x.toModel.unpack with
  | infinity => rfl
  | notANumber | zero | finite =>
    rw [hx] at hinf
    cases hinf

theorem isInfinite_two_mul (h : Scalar.isInfinite x = true) :
    Scalar.isInfinite (2.0 * x) = true := by
  cases hx : Datum.ofFloat x with
  | undefined =>
    obtain rfl := eq_of_undefined hx
    exact absurd h (by decide +kernel)
  | infinite negative =>
    obtain rfl := eq_of_infinite hx
    cases negative with
    | false => decide +kernel
    | true => decide +kernel
  | finite b =>
    rw [isInfinite_eq_false hx] at h
    cases h

theorem undefined_neg (x : Float) : Scalar.undefined (-x) = Scalar.undefined x := by
  rw [undefined_eq x]
  refine (undefined_pack _).trans ?_
  cases x.toModel.unpack <;> rfl

theorem undefined_abs (x : Float) : Scalar.undefined x.abs = Scalar.undefined x := by
  rw [undefined_eq x]
  refine (undefined_pack _).trans ?_
  cases x.toModel.unpack <;> rfl

theorem undefined_add (y : Float) (h : Scalar.isInfinite x = false) :
    Scalar.undefined (x + y) = (Scalar.undefined x || Scalar.undefined y) := by
  rw [undefined_eq x, undefined_eq y]
  exact (undefined_pack _).trans (isNaN_add h)

theorem undefined_sub (y : Float) (h : Scalar.isInfinite x = false) :
    Scalar.undefined (x - y) = (Scalar.undefined x || Scalar.undefined y) := by
  rw [undefined_eq x, undefined_eq y]
  exact (undefined_pack _).trans (isNaN_sub h)

theorem undefined_mul (x y : Float) : Scalar.undefined (x * y) =
    (Scalar.undefined x || Scalar.undefined y || Scalar.isInfinite x && y == 0 ||
      x == 0 && Scalar.isInfinite y) := by
  rw [undefined_eq x, undefined_eq y, beq_zero_eq, beq_zero_eq]
  exact (undefined_pack _).trans (isNaN_mul _ _)

theorem undefined_div (x y : Float) : Scalar.undefined (x / y) =
    (Scalar.undefined x || Scalar.undefined y || Scalar.isInfinite x && Scalar.isInfinite y ||
      x == 0 && y == 0) := by
  rw [undefined_eq x, undefined_eq y, beq_zero_eq, beq_zero_eq]
  exact (undefined_pack _).trans (isNaN_div _ _)

end

end Decimal

/-- Doubles whose exponential and power are the given functions. -/
def DoubleWith (_exp : Float → Float) (_power : Float → Float → Float) : Type := Float

section

variable {exp : Float → Float} {power : Float → Float → Float}

instance DoubleWith.scalar : Scalar (DoubleWith exp power) :=
  ({ Scalar.double with exp, power } : Scalar Float)

/-- With the exponential and the power of doubles they are the doubles. -/
theorem DoubleWith.scalar_eq :
    (DoubleWith.scalar : Scalar (DoubleWith Float.exp Float.pow)) = Scalar.double := rfl

open Decimal in
/-- **Doubles keep the rules for special values**, if their exponential and their power do. -/
theorem special_doubleWith (hexp : ∀ x, Scalar.undefined (exp x) = Scalar.undefined x)
    (hpower : ∀ {x} y, ¬ x < 0 → Scalar.undefined (power x y) =
      (Scalar.undefined x && !(y == 0) || Scalar.undefined y && !(x == 1))) :
    Scalar.Special (DoubleWith exp power) where
  defined := comparable_double.defined
  defined_of_lt := comparable_double.defined_of_lt
  ordered :=
    let ordered := comparable_double.ordered
    ⟨ordered.total, ordered.trans, ordered.lt_iff⟩
  beq_iff := beq_iff_le
  beq_zero_of_isInfinite := beq_zero_of_isInfinite
  isFinite_one := isFinite_one
  isFinite_two := isFinite_two
  two_beq_zero := by
    have htwo : ((2.0 : Float) == 0) = false := by decide +kernel
    exact htwo
  isInfinite_two_mul := isInfinite_two_mul
  undefined_neg := undefined_neg
  undefined_magnitude := undefined_abs
  magnitude_not_neg := abs_not_neg
  undefined_add := undefined_add
  undefined_sub := undefined_sub
  sub_of_lt := sub_of_lt
  undefined_mul := undefined_mul
  undefined_div := undefined_div
  undefined_exp := hexp
  undefined_power := hpower

end

end Graded
