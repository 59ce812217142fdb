/-
# Doubles and their bits

A double is known by its bits, and the library reads them into a sign, a mantissa and an exponent
(`Datum.ofBits`).  Arithmetic reads them in its own way, and packs its results into bits again.  The
two readings agree (`unpack_eq`), and what is packed is what is read (`ofBits_pack`), so that the
operations are known by the data of their operands.

Since different doubles have different data (`ofFloat_injective`), a decimal that lies in the
interval of a double is not only rounded to the same data: it stands for this double
(`ofNumeral_eq`).  A decimal of few digits takes a shorter way, by one product or quotient with a
power of ten from a table, and comes to the same.
-/
import Mathlib
import Graded.Proofs.Rounding
import Graded.Document.Number

namespace Graded
namespace Decimal

open Float.Model Float.Model.UnpackedFloat

/-! ## 1. The fields of a pattern -/

/-- The sign, the exponent and the fraction that a pattern is made of. -/
structure Fields where
  negative : Bool
  exponent : ℕ
  fraction : ℕ

/-- One bit, eleven bits and 52 bits. -/
def Fields.ofBits (bits : UInt64) : Fields :=
  ⟨bits.toNat / 2 ^ 63 % 2 == 1, bits.toNat / 2 ^ 52 % 2 ^ 11, bits.toNat % 2 ^ 52⟩

/-- What the fields stand for. -/
def Fields.datum (f : Fields) : Datum :=
  if f.exponent = 2047 then
    if f.fraction = 0 then .infinite f.negative else .undefined
  else if f.exponent = 0 then
    .finite ⟨f.negative, f.fraction, -1074⟩
  else
    .finite ⟨f.negative, 2 ^ 52 + f.fraction, (f.exponent : Int) - 1075⟩

theorem datum_ofBits (bits : UInt64) : (Fields.ofBits bits).datum = Datum.ofBits bits := rfl

theorem toNat_unpackMantissa (bits : UInt64) :
    (@unpackMantissa Format.binary64 bits.toBitVec).toNat = (Fields.ofBits bits).fraction := by
  simp [unpackMantissa, BitVec.extractLsb, Fields.ofBits]

theorem toNat_unpackExponent (bits : UInt64) :
    (@unpackExponent Format.binary64 bits.toBitVec).toNat = (Fields.ofBits bits).exponent := by
  simp [unpackExponent, BitVec.extractLsb, Nat.shiftRight_eq_div_pow, Fields.ofBits]

theorem toNat_unpackSign (bits : UInt64) :
    (@unpackSign Format.binary64 bits.toBitVec).toNat = bits.toNat / 2 ^ 63 % 2 := by
  simp [unpackSign, BitVec.extractLsb, Nat.shiftRight_eq_div_pow]

/-- The fields make the pattern. -/
theorem Fields.ofBits_injective {a b : UInt64} (h : Fields.ofBits a = Fields.ofBits b) : a = b := by
  simp only [Fields.ofBits, Fields.mk.injEq, beq_eq_beq] at h
  obtain ⟨hsign, hexponent, hfraction⟩ := h
  have ha := a.toNat_lt
  have hb := b.toNat_lt
  refine UInt64.toNat_inj.mp ?_
  omega

/-- Different fields stand for different data, the undefined ones apart. -/
theorem Fields.datum_injective {f g : Fields} (hf : f.fraction < 2 ^ 52) (hg : g.fraction < 2 ^ 52)
    (h : f.datum = g.datum) (hdefined : f.datum ≠ .undefined) : f = g := by
  obtain ⟨n, e, m⟩ := f
  obtain ⟨n', e', m'⟩ := g
  simp only [Fields.datum] at h hdefined hf hg
  split at h <;> split at h <;> grind

theorem Datum.ofBits_injective {a b : UInt64} (h : Datum.ofBits a = Datum.ofBits b)
    (hdefined : Datum.ofBits a ≠ .undefined) : a = b :=
  Fields.ofBits_injective (Fields.datum_injective (Nat.mod_lt _ (by norm_num))
    (Nat.mod_lt _ (by norm_num)) h hdefined)

/-! ## 2. Unpacking -/

/-- The sign of a number that is negative or is not. -/
def signOf : Bool → Sign
  | true => .negative
  | false => .positive

/-- What arithmetic makes of data. -/
def Datum.unpacked : Datum → UnpackedFloat
  | .finite b =>
    if h : b.mantissa = 0 then .zero (signOf b.negative)
    else .finite (signOf b.negative) b.mantissa b.exponent (Nat.pos_of_ne_zero h)
  | .infinite negative => .infinity (signOf negative)
  | .undefined => .notANumber

theorem ofBitVec_unpackSign (bits : UInt64) :
    Sign.ofBitVec (@unpackSign Format.binary64 bits.toBitVec) =
      signOf (Fields.ofBits bits).negative := by
  have hsign := toNat_unpackSign bits
  have hnegative : (Fields.ofBits bits).negative = (bits.toNat / 2 ^ 63 % 2 == 1) := rfl
  simp only [Sign.ofBitVec, ← BitVec.toNat_inj, hsign, hnegative]
  rcases Nat.mod_two_eq_zero_or_one (bits.toNat / 2 ^ 63) with h | h <;> rw [h] <;> rfl

theorem toNat_append_unpackMantissa (bits : UInt64) :
    (1#1 ++ @unpackMantissa Format.binary64 bits.toBitVec).toNat =
      2 ^ 52 + (Fields.ofBits bits).fraction := by
  have hlt : (Fields.ofBits bits).fraction < 2 ^ 52 := Nat.mod_lt _ (by norm_num)
  rw [BitVec.toNat_append, toNat_unpackMantissa, ← Nat.shiftLeft_add_eq_or_of_lt hlt]
  rfl

theorem unpackExponent_eq_ones (bits : UInt64) :
    @unpackExponent Format.binary64 bits.toBitVec = -1#_ ↔
      (Fields.ofBits bits).exponent = 2047 := by
  rw [← BitVec.toNat_inj, toNat_unpackExponent]
  rfl

theorem unpackExponent_eq_zero (bits : UInt64) :
    @unpackExponent Format.binary64 bits.toBitVec = 0#_ ↔ (Fields.ofBits bits).exponent = 0 := by
  rw [← BitVec.toNat_inj, toNat_unpackExponent]
  rfl

theorem unpackMantissa_eq_zero (bits : UInt64) :
    @unpackMantissa Format.binary64 bits.toBitVec = 0#_ ↔ (Fields.ofBits bits).fraction = 0 := by
  rw [← BitVec.toNat_inj, toNat_unpackMantissa]
  rfl

/-- **The two readings of a pattern agree.** -/
theorem unpack_eq (bits : UInt64) :
    UnpackedFloat.unpack Format.binary64 bits.toBitVec = (Datum.ofBits bits).unpacked := by
  have hbias : (Format.binary64.exponentBias : ℤ) = 1023 := rfl
  have hinf := unpackExponent_eq_ones bits
  have hbottom := unpackExponent_eq_zero bits
  have hzero := unpackMantissa_eq_zero bits
  simp only [UnpackedFloat.unpack, ofBitVec_unpackSign, hinf, hbottom, hzero, toNat_unpackExponent,
    toNat_unpackMantissa, hbias]
  rw [← datum_ofBits, Fields.datum]
  split
  · split <;> rfl
  · split
    next hexp =>
      rw [hexp]
      rfl
    next hexp =>
      have hne : ¬ 2 ^ 52 + (Fields.ofBits bits).fraction = 0 := by omega
      rw [Datum.unpacked, dif_neg hne]
      congr 1
      exact toNat_append_unpackMantissa bits

/-! ## 3. Packing -/

theorem unpackSign_packComponents {spec : Format} (s : Sign) (e : BitVec spec.exponentBits)
    (m : BitVec spec.mantissaBitsWithoutImplicit) :
    unpackSign (packComponents spec s e m) = s.toBitVec := by
  refine BitVec.eq_of_getLsbD_eq fun i hi => ?_
  obtain rfl : i = 0 := by omega
  simp [unpackSign, packComponents, BitVec.getLsbD_append, BitVec.getElem_append]

theorem ofBitVec_toBitVec (s : Sign) : Sign.ofBitVec s.toBitVec = s := by cases s <;> rfl

theorem signOf_injective : Function.Injective signOf := by
  rintro (_ | _) (_ | _) h
  · rfl
  · cases h
  · cases h
  · rfl

/-- The fields of a pattern that is made of components. -/
theorem fields_packComponents (negative : Bool) (e : BitVec 11) (m : BitVec 52) :
    Fields.ofBits (UInt64.ofBitVec (packComponents Format.binary64 (signOf negative) e m)) =
      ⟨negative, e.toNat, m.toNat⟩ := by
  set bits := UInt64.ofBitVec (packComponents Format.binary64 (signOf negative) e m)
  have hbits : bits.toBitVec = packComponents Format.binary64 (signOf negative) e m := rfl
  have he := toNat_unpackExponent bits
  have hm := toNat_unpackMantissa bits
  have hs := ofBitVec_unpackSign bits
  rw [hbits, unpackExponent_packComponents] at he
  rw [hbits, unpackMantissa_packComponents] at hm
  rw [hbits, unpackSign_packComponents, ofBitVec_toBitVec] at hs
  rw [he, hm, signOf_injective hs]

/-- **A number in the form of a double is packed into the pattern of this double.**  Its first digit
is left out, unless it is smaller than all numbers that have 53 digits. -/
theorem ofBits_pack {b : Binary} (hb : b.Proper) :
    Datum.ofBits (UInt64.ofBitVec (UnpackedFloat.pack Format.binary64
      (.finite (signOf b.negative) b.mantissa b.exponent hb.pos))) = .finite b := by
  have hleast := hb.least
  have hmost := hb.most
  have hbias : (b.exponent + Format.binary64.exponentBias +
      Format.binary64.mantissaBitsWithoutImplicit).toNat = (b.exponent + 1075).toNat := by
    change (b.exponent + 1023 + 52).toNat = _
    omega
  have hinf : ¬ 2 ^ Format.binary64.exponentBits ≤ (b.exponent + 1075).toNat + 1 := by
    change ¬ 2 ^ 11 ≤ _
    omega
  rw [UnpackedFloat.pack, hbias]
  simp only [hinf, if_false]
  split
  next hlog =>
    have hlog' : b.mantissa.log2 = 52 := Nat.succ_injective hlog
    have hfull : 2 ^ 52 ≤ b.mantissa := (Nat.le_log2 hb.pos.ne').mp hlog'.ge
    have hlt := hb.lt
    have he : (BitVec.ofNat 11 (b.exponent + 1075).toNat).toNat = (b.exponent + 1075).toNat :=
      (BitVec.toNat_ofNat _ _).trans (Nat.mod_eq_of_lt (by omega))
    have hm : (BitVec.ofNat 52 b.mantissa).toNat = b.mantissa - 2 ^ 52 := by
      rw [BitVec.toNat_ofNat]
      omega
    rw [← datum_ofBits]
    refine (congrArg Fields.datum (fields_packComponents b.negative _ _)).trans ?_
    rw [he, hm]
    simp only [Fields.datum]
    rw [if_neg (by omega), if_neg (by omega), Nat.add_sub_cancel' hfull]
    congr 2
    omega
  next hlog =>
    have hlog' : b.mantissa.log2 ≠ 52 := fun h => hlog (congrArg (· + 1) h)
    have hlt : b.mantissa.log2 < 53 := (Nat.log2_lt hb.pos.ne').mpr hb.lt
    have hsub : b.mantissa < 2 ^ 52 := (Nat.log2_lt hb.pos.ne').mp (by omega)
    have hm : (BitVec.ofNat 52 b.mantissa).toNat = b.mantissa :=
      (BitVec.toNat_ofNat _ _).trans (Nat.mod_eq_of_lt hsub)
    have hbottom := hb.full.resolve_left hsub.not_ge
    rw [← datum_ofBits]
    refine (congrArg Fields.datum (fields_packComponents b.negative _ _)).trans ?_
    rw [hm]
    change Datum.finite ⟨b.negative, b.mantissa, -1074⟩ = _
    rw [← hbottom]

/-! ## 4. Numbers -/

theorem Fields.eq_of_datum_undefined {f : Fields} (h : f.datum = .undefined) :
    f.exponent = 2047 ∧ f.fraction ≠ 0 := by
  unfold Fields.datum at h
  split at h
  next hexp =>
    split at h
    next => cases h
    next hfraction => exact ⟨hexp, hfraction⟩
  next =>
    split at h
    · cases h
    · cases h

theorem Fields.proper_of_datum {f : Fields} (he : f.exponent < 2 ^ 11) (hf : f.fraction < 2 ^ 52)
    {b : Binary} (h : f.datum = .finite b) (hpos : 0 < b.mantissa) : b.Proper := by
  unfold Fields.datum at h
  split at h
  next =>
    split at h
    · cases h
    · cases h
  next hinf =>
    split at h
    next =>
      cases h
      exact ⟨hpos, by change f.fraction < 2 ^ 53; omega, le_rfl, by norm_num, .inr rfl⟩
    next hexp =>
      cases h
      refine ⟨hpos, ?_, ?_, ?_, .inl ?_⟩ <;> dsimp only <;> omega

theorem Fields.exponent_of_datum {f : Fields} {b : Binary} (h : f.datum = .finite b)
    (hzero : b.mantissa = 0) : b.exponent = -1074 := by
  unfold Fields.datum at h
  split at h
  next =>
    split at h
    · cases h
    · cases h
  next =>
    split at h
    next =>
      cases h
      rfl
    next =>
      cases h
      have hne : 2 ^ 52 + f.fraction = 0 := hzero
      omega

section

variable {x y : Float} {b : Binary}

/-- There is one undefined double only. -/
theorem toBits_eq (h : Datum.ofFloat x = .undefined) :
    x.toModel.toBits.toBitVec = packedNaN Format.binary64 := by
  obtain ⟨hexponent, hfraction⟩ := Fields.eq_of_datum_undefined (f := .ofBits x.toModel.toBits) h
  exact x.toModel.valid.eq_packedNaN ((unpackExponent_eq_ones _).mpr hexponent)
    fun hzero => hfraction ((unpackMantissa_eq_zero _).mp hzero)

/-- **A double is known by its data.** -/
theorem ofFloat_injective (h : Datum.ofFloat x = Datum.ofFloat y) : x = y := by
  have hbits : x.toModel.toBits = y.toModel.toBits := by
    by_cases hundefined : Datum.ofFloat x = .undefined
    · exact UInt64.toBitVec_inj.mp
        ((toBits_eq hundefined).trans (toBits_eq (h ▸ hundefined)).symm)
    · exact Datum.ofBits_injective h hundefined
  obtain ⟨⟨bits, hx⟩⟩ := x
  obtain ⟨⟨bits', hy⟩⟩ := y
  obtain rfl : bits = bits' := hbits
  rfl

theorem unpack_toModel (x : Float) : x.toModel.unpack = (Datum.ofFloat x).unpacked :=
  unpack_eq x.toModel.toBits

theorem unpack_of_finite (h : Datum.ofFloat x = .finite b) (hb : 0 < b.mantissa) :
    x.toModel.unpack = .finite (signOf b.negative) b.mantissa b.exponent hb := by
  rw [unpack_toModel, h, Datum.unpacked, dif_neg hb.ne']

theorem proper_of_ofFloat (h : Datum.ofFloat x = .finite b) (hb : 0 < b.mantissa) : b.Proper :=
  Fields.proper_of_datum (f := .ofBits x.toModel.toBits) (Nat.mod_lt _ (by norm_num))
    (Nat.mod_lt _ (by norm_num)) h hb

theorem ofFloat_pack (hb : b.Proper) :
    Datum.ofFloat (.ofModel (.pack (.finite (signOf b.negative) b.mantissa b.exponent hb.pos))) =
      .finite b := ofBits_pack hb

/-! ## 5. Arithmetic -/

theorem ofFloat_neg (h : Datum.ofFloat x = .finite b) (hb : b.Proper) :
    Datum.ofFloat (-x) = .finite ⟨!b.negative, b.mantissa, b.exponent⟩ := by
  have hneg : -x = .ofModel (.pack x.toModel.unpack.neg) := rfl
  have hsign : -signOf b.negative = signOf (!b.negative) := by cases b.negative <;> rfl
  rw [hneg, unpack_of_finite h hb.pos, UnpackedFloat.neg]
  simp only [hsign]
  exact ofFloat_pack (b := ⟨!b.negative, b.mantissa, b.exponent⟩)
    ⟨hb.pos, hb.lt, hb.least, hb.most, hb.full⟩

/-- The product of two positive doubles that have 53 digits together. -/
theorem ofFloat_mul {m n : ℕ} {d e : ℤ} (hx : Datum.ofFloat x = .finite ⟨false, m, d⟩)
    (hy : Datum.ofFloat y = .finite ⟨false, n, e⟩) (hm : 0 < m) (hn : 0 < n)
    (hfull : 2 ^ 52 ≤ m * n) (hb : b.Proper) (hpos : b.negative = false)
    (hv : (Interval.ofBinary b).Covers (m * n * 2 ^ (d + e))) :
    Datum.ofFloat (x * y) = .finite b := by
  have hmul : x * y = .ofModel (.pack (UnpackedFloat.mul Format.binary64 x.toModel.unpack
    y.toModel.unpack)) := rfl
  have hsign : Sign.positive = signOf b.negative := by rw [hpos]; rfl
  rw [hmul, unpack_of_finite hx hm, unpack_of_finite hy hn, mul_eq hb _ _ hm hn hfull hv]
  change Datum.ofFloat (.ofModel (.pack (.finite .positive _ _ _))) = _
  simp only [hsign]
  exact ofFloat_pack hb

/-- The quotient of two positive doubles. -/
theorem ofFloat_div {m n : ℕ} {d e : ℤ} (hx : Datum.ofFloat x = .finite ⟨false, m, d⟩)
    (hy : Datum.ofFloat y = .finite ⟨false, n, e⟩) (hm : 0 < m) (hn : 0 < n) (hb : b.Proper)
    (hpos : b.negative = false) (hv : (Interval.ofBinary b).Covers (m / n * 2 ^ (d - e))) :
    Datum.ofFloat (x / y) = .finite b := by
  have hdiv : x / y = .ofModel (.pack (UnpackedFloat.div Format.binary64 x.toModel.unpack
    y.toModel.unpack)) := rfl
  have hsign : Sign.positive = signOf b.negative := by rw [hpos]; rfl
  rw [hdiv, unpack_of_finite hx hm, unpack_of_finite hy hn, div_eq hb _ _ hm hn hv]
  change Datum.ofFloat (.ofModel (.pack (.finite .positive _ _ _))) = _
  simp only [hsign]
  exact ofFloat_pack hb

/-! ## 6. Decimals -/

/-- A natural that 53 digits hold. -/
theorem ofFloat_toFloat {n : ℕ} (hn : 0 < n) (hlt : n < 2 ^ 53) :
    Datum.ofFloat n.toUInt64.toFloat = .finite (Binary.ofNat n) := by
  have hto : n.toUInt64.toNat = n := UInt64.toNat_ofNat_of_lt' (hlt.trans (by decide))
  have hpack : n.toUInt64.toFloat =
      .ofModel (.pack (UnpackedFloat.ofNat Format.binary64 n.toUInt64.toNat)) := rfl
  rw [hpack, hto, ofNat_eq hn hlt]
  exact ofFloat_pack (Binary.proper_ofNat hn hlt)

/-- The double is a power of ten with 53 digits. -/
def isPower (x : Float) (e : ℕ) : Bool :=
  match Datum.ofFloat x with
  | .finite b => !b.negative && decide (2 ^ 52 ≤ b.mantissa) && decide (-52 ≤ b.exponent) &&
      b.mantissa * 2 ^ (b.exponent + 52).toNat == 10 ^ e * 2 ^ 52
  | _ => false

theorem isPower_table : ∀ e : Fin Float.exactlyRepresentablePowersOfTen.size,
    isPower Float.exactlyRepresentablePowersOfTen[e] e = true := by
  decide +kernel

theorem exists_of_isPower {e : ℕ} (h : isPower x e = true) :
    ∃ m d, Datum.ofFloat x = .finite ⟨false, m, d⟩ ∧ 2 ^ 52 ≤ m ∧ (m : ℚ) * 2 ^ d = 10 ^ e := by
  unfold isPower at h
  split at h
  next b hb =>
    simp only [Bool.and_eq_true, Bool.not_eq_true', decide_eq_true_eq, beq_iff_eq] at h
    obtain ⟨⟨⟨hneg, hfull⟩, hleast⟩, hvalue⟩ := h
    obtain ⟨n, m, d⟩ := b
    cases hneg
    refine ⟨m, d, hb, hfull, ?_⟩
    have hcast : (m : ℚ) * 2 ^ (d + 52).toNat = 10 ^ e * 2 ^ 52 := by exact_mod_cast hvalue
    rw [← zpow_natCast, Int.toNat_of_nonneg (by dsimp only at hleast; omega)] at hcast
    have hsplit : (2 : ℚ) ^ (d + 52) = 2 ^ d * 2 ^ 52 := zpow_add_nat d 52
    rw [hsplit, ← mul_assoc] at hcast
    exact mul_right_cancel₀ (by positivity) hcast
  next => cases h

/-- A natural of 53 digits over a power of ten. -/
theorem ofFloat_quotient {n e : ℕ} (hn : 0 < n) (hlt : n < 2 ^ 53) (hy : isPower y e = true)
    (hb : b.Proper) (hpos : b.negative = false)
    (hv : (Interval.ofBinary b).Covers (n / 10 ^ e)) :
    Datum.ofFloat (n.toUInt64.toFloat / y) = .finite b := by
  obtain ⟨m, d, hpower, hfull, hten⟩ := exists_of_isPower hy
  have hmant := (Binary.proper_ofNat hn hlt).pos
  have hvalue : ((Binary.ofNat n).mantissa : ℚ) / m * 2 ^ ((Binary.ofNat n).exponent - d) =
      n / 10 ^ e := by
    rw [zpow_sub₀ two_ne_zero, div_mul_div_comm, Binary.value_ofNat hn hlt, hten]
  exact ofFloat_div (ofFloat_toFloat hn hlt) hpower hmant (by omega) hb hpos (hvalue ▸ hv)

/-- A natural of 53 digits times a power of ten. -/
theorem ofFloat_product {n e : ℕ} (hn : 0 < n) (hlt : n < 2 ^ 53) (hy : isPower y e = true)
    (hb : b.Proper) (hpos : b.negative = false)
    (hv : (Interval.ofBinary b).Covers (n * 10 ^ e)) :
    Datum.ofFloat (n.toUInt64.toFloat * y) = .finite b := by
  obtain ⟨m, d, hpower, hfull, hten⟩ := exists_of_isPower hy
  have hmant := (Binary.proper_ofNat hn hlt).pos
  have hvalue : ((Binary.ofNat n).mantissa : ℚ) * m * 2 ^ ((Binary.ofNat n).exponent + d) =
      n * 10 ^ e := by
    rw [zpow_add₀ two_ne_zero, mul_mul_mul_comm, Binary.value_ofNat hn hlt, hten]
  exact ofFloat_mul (ofFloat_toFloat hn hlt) hpower hmant (by omega)
    (hfull.trans (Nat.le_mul_of_pos_left m hmant)) hb hpos (hvalue ▸ hv)

/-- A decimal that lies in the interval of a double is read as this double. -/
theorem ofFloat_ofScientific {n : ℕ} {p : ℤ} (hn : 0 < n) (hb : b.Proper)
    (hpos : b.negative = false) (hv : (Interval.ofBinary b).Covers (n * 10 ^ p)) :
    Datum.ofFloat (Float.ofScientific n (decide (p < 0)) p.natAbs) = .finite b := by
  rw [Float.ofScientific]
  split
  next hfast =>
    obtain ⟨hlt, hle⟩ := hfast
    have hsize : Float.exactlyRepresentablePowersOfTen.size = 23 := rfl
    have hpower := isPower_table ⟨p.natAbs, by rw [hsize]; omega⟩
    dsimp only
    split
    next hp =>
      refine ofFloat_quotient hn hlt hpower hb hpos ?_
      have habs : p = -(p.natAbs : ℤ) := by
        have hneg := of_decide_eq_true hp
        omega
      rwa [habs, zpow_neg, zpow_natCast, ← div_eq_mul_inv] at hv
    next hp =>
      refine ofFloat_product hn hlt hpower hb hpos ?_
      have habs : p = (p.natAbs : ℤ) := by
        have hnonneg := not_lt.mp (of_decide_eq_false (Bool.eq_false_of_not_eq_true hp))
        omega
      rwa [habs, zpow_natCast] at hv
  next =>
    have hplace : (if decide (p < 0) then Int.negOfNat p.natAbs else Int.ofNat p.natAbs) = p := by
      rcases lt_or_ge p 0 with hp | hp
      · rw [if_pos (decide_eq_true hp), Int.negOfNat_eq]
        change -(p.natAbs : ℤ) = p
        omega
      · rw [if_neg (by simpa using hp)]
        change (p.natAbs : ℤ) = p
        omega
    have hsign : Sign.positive = signOf b.negative := by rw [hpos]; rfl
    dsimp only
    rw [hplace, Float.Model.ofScientific, ofScientific_eq hb hn hv]
    simp only [hsign]
    exact ofFloat_pack hb

theorem ofFloat_decimalDouble {n : ℕ} {p : ℤ} (hn : 0 < n) (hb : b.Proper)
    (hpos : b.negative = false) (hv : (Interval.ofBinary b).Covers (n * 10 ^ p)) :
    Datum.ofFloat (Scalar.decimalDouble n (decide (p < 0)) p.natAbs) = .finite b := by
  have hmost := hv.place_le hb hn
  have hleast := hv.neg_place_le hb
  have hread := ofFloat_ofScientific hn hb hpos hv
  rw [Scalar.decimalDouble, if_neg hn.ne']
  rcases lt_or_ge p 0 with hp | hp
  · rw [decide_eq_true hp] at hread ⊢
    rw [if_pos rfl, if_neg (by omega)]
    exact hread
  · rw [decide_eq_false hp.not_gt] at hread ⊢
    rw [if_neg Bool.false_ne_true, if_neg (by omega)]
    exact hread

/-- **A decimal that lies in the interval of a double stands for this double.** -/
theorem ofNumeral_eq (h : Datum.ofFloat x = .finite b) (hb : 0 < b.mantissa) {n : ℕ} {p : ℤ}
    (hn : 0 < n) (hv : (Interval.ofBinary b).Covers (n * 10 ^ p)) :
    Scalar.ofNumeral (.decimal b.negative n p) = x := by
  obtain ⟨negative, m, e⟩ := b
  have hproper := proper_of_ofFloat h hb
  have hpositive : (⟨false, m, e⟩ : Binary).Proper :=
    ⟨hproper.pos, hproper.lt, hproper.least, hproper.most, hproper.full⟩
  have hsize := ofFloat_decimalDouble hn hpositive rfl hv
  refine ofFloat_injective (Eq.trans ?_ h.symm)
  cases negative with
  | false => exact hsize
  | true => exact ofFloat_neg hsize hpositive

theorem ofNumeral_zero (h : Datum.ofFloat x = .finite b) (hb : b.mantissa = 0) (p : ℤ) :
    Scalar.ofNumeral (.decimal b.negative 0 p) = x := by
  have hexp := Fields.exponent_of_datum (f := .ofBits x.toModel.toBits) h hb
  obtain ⟨negative, m, e⟩ := b
  obtain rfl : m = 0 := hb
  obtain rfl : e = -1074 := hexp
  refine ofFloat_injective (Eq.trans ?_ h.symm)
  cases negative with
  | false =>
    change Datum.ofFloat (0.0 : Float) = _
    decide +kernel
  | true =>
    change Datum.ofFloat (-(0.0 : Float)) = _
    decide +kernel

/-! ## 7. Tests -/

theorem compare_self {a : UnpackedFloat} (h : a ≠ .notANumber) : a.compare a = some .eq := by
  cases a with
  | notANumber => exact absurd rfl h
  | infinity s => cases s <;> rfl
  | zero s => rfl
  | finite s m e _ =>
    cases s with
    | negative => simp [UnpackedFloat.compare]
    | positive => simp [UnpackedFloat.compare]

theorem undefined_eq_false (h : Datum.ofFloat x ≠ .undefined) : Scalar.undefined x = false := by
  have hne : x.toModel.unpack ≠ .notANumber := by
    rw [unpack_toModel]
    cases hx : Datum.ofFloat x with
    | finite b =>
      rw [Datum.unpacked]
      split
      · exact UnpackedFloat.noConfusion
      · exact UnpackedFloat.noConfusion
    | infinite => exact UnpackedFloat.noConfusion
    | undefined => exact absurd hx h
  have hbeq : (x != x) = !(x.toModel.unpack.beq x.toModel.unpack) := rfl
  rw [Scalar.undefined, hbeq, UnpackedFloat.beq, compare_self hne]
  rfl

theorem isInfinite_eq_false (h : Datum.ofFloat x = .finite b) : Scalar.isInfinite x = false := by
  have hinf : Scalar.isInfinite x = x.toModel.unpack.isInf := rfl
  rw [hinf, unpack_toModel, h, Datum.unpacked]
  split
  · rfl
  · rfl

theorem eq_of_infinite {negative : Bool} (h : Datum.ofFloat x = .infinite negative) :
    x = if negative then -Scalar.infinity else Scalar.infinity := by
  refine ofFloat_injective (h.trans ?_)
  cases negative with
  | false => decide +kernel
  | true => decide +kernel

theorem eq_of_undefined (h : Datum.ofFloat x = .undefined) : x = Scalar.nothing := by
  refine ofFloat_injective (h.trans ?_)
  decide +kernel

theorem undefined_of_isInfinite (h : Scalar.isInfinite x = true) : Scalar.undefined x = false := by
  refine undefined_eq_false fun hx => ?_
  obtain rfl := eq_of_undefined hx
  exact absurd h (by decide +kernel)

/-- A number that is neither undefined nor infinite is finite. -/
theorem exists_finite (hx : Scalar.undefined x = false) (hx' : Scalar.isInfinite x = false) :
    ∃ b, Datum.ofFloat x = .finite b := by
  cases h : Datum.ofFloat x with
  | finite b => exact ⟨b, rfl⟩
  | infinite negative =>
    obtain rfl := eq_of_infinite h
    cases negative with
    | false => exact absurd hx' (by decide +kernel)
    | true => exact absurd hx' (by decide +kernel)
  | undefined =>
    obtain rfl := eq_of_undefined h
    exact absurd hx (by decide +kernel)

end

end Decimal
end Graded
