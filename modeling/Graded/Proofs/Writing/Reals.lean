/-
# Writing doubles

What is written for a double is a number of the grammar that stands for this double, or a word if it
is not finite (`denotes_writtenReal`).

The digits of the shortest decimal are laid out in one of four ways: behind zeros, before zeros, with
a point between them or with an exponent.  `Leading` is what the four ways are given and `Says` is
what each of them comes to, a number of the grammar with the value of the decimal.  The value lies in
the interval of the double, and so the double is read back from it.
-/
import Graded.Proofs.Doubles
import Graded.Proofs.Shortest
import Graded.Proofs.Writing

namespace Graded
namespace Document

open Decimal

/-! ## 1. Digits -/

/-- Zeros at the end are what is dropped. -/
theorem exists_stripZeros (cs : List Char) : ∃ k, cs = stripZeros cs ++ List.replicate k '0' := by
  have hzeros : cs.reverse.takeWhile (· == '0') =
      List.replicate (cs.reverse.takeWhile (· == '0')).length '0' :=
    List.eq_replicate_iff.mpr ⟨rfl, fun c hc =>
      beq_iff_eq.mp (List.mem_takeWhile_imp (p := (· == '0')) hc)⟩
  refine ⟨(cs.reverse.takeWhile (· == '0')).length, ?_⟩
  calc cs = (cs.reverse.takeWhile (· == '0') ++ cs.reverse.dropWhile (· == '0')).reverse := by
        rw [List.takeWhile_append_dropWhile, List.reverse_reverse]
    _ = stripZeros cs ++ (cs.reverse.takeWhile (· == '0')).reverse := List.reverse_append
    _ = stripZeros cs ++ List.replicate (cs.reverse.takeWhile (· == '0')).length '0' := by
      conv => lhs; rw [hzeros, List.reverse_replicate]

theorem toList_toString (n : ℕ) : (toString n).toList = Nat.toDigits 10 n := by
  rw [Nat.toString_eq_ofList_toDigits, String.toList_ofList]

theorem toList_padded (width n : ℕ) : (padded width n).toList =
    List.replicate (width - (toString n).length) '0' ++ Nat.toDigits 10 n := by
  rw [padded, String.toList_append, toList_pushn, toList_toString]
  rfl

theorem isDigit_of_mem_replicate {k : ℕ} {c : Char} (h : c ∈ List.replicate k '0') :
    c.isDigit = true := by
  rw [List.eq_of_mem_replicate h]
  rfl

theorem digits_padded (width n : ℕ) : Digits (padded width n).toList := by
  rw [toList_padded]
  refine ⟨List.append_ne_nil_of_right_ne_nil _ Nat.toDigits_ne_nil, fun c hc => ?_⟩
  rcases List.mem_append.mp hc with hc | hc
  · exact isDigit_of_mem_replicate hc
  · exact Nat.isDigit_of_mem_toDigits (by norm_num) le_rfl hc

theorem ofDigitChars_padded (width n : ℕ) : Nat.ofDigitChars 10 (padded width n).toList 0 = n := by
  rw [toList_padded, Nat.ofDigitChars_append, Nat.ofDigitChars_replicate_zero, Nat.mul_zero,
    Nat.ofDigitChars_ten_toDigits]

theorem toList_exponentText (e : ℤ) : (exponentText e).toList =
    'e' :: (if e < 0 then '-' else '+') :: (padded 2 e.natAbs).toList := by
  rw [exponentText, String.toList_append]
  split <;> rfl

/-- The text of an exponent stands for it. -/
theorem exponent_exponentText (e : ℤ) : Exponent (exponentText e).toList e := by
  have hdigits := digits_padded 2 e.natAbs
  have hvalue := ofDigitChars_padded 2 e.natAbs
  rw [toList_exponentText]
  split
  next h =>
    have hexp := Exponent.minus (.inl rfl) hdigits
    have habs : -(e.natAbs : ℤ) = e := by omega
    rwa [hvalue, habs] at hexp
  next h =>
    have hexp := Exponent.plus (.inl rfl) hdigits
    have habs : (e.natAbs : ℤ) = e := by omega
    rwa [hvalue, habs] at hexp

/-! ## 2. Layout -/

/-- Digits that do not begin with a zero, and the value that they have if the first of them stands
at a place. -/
structure Leading (ds : List Char) (e : ℤ) (v : ℚ) : Prop where
  digits : Digits ds
  head : ds.head? ≠ some '0'
  value : (Nat.ofDigitChars 10 ds 0 : ℚ) * 10 ^ (e + 1 - ds.length) = v

/-- The characters are a number that has a point or an exponent, and stand for a value. -/
inductive Says : List Char → ℚ → Prop
  | intro {ds point fs mark : List Char} {e : ℤ} {v : ℚ} : Whole ds → Fraction point fs →
      Exponent mark e → point ++ mark ≠ [] →
      (Nat.ofDigitChars 10 (ds ++ fs) 0 : ℚ) * 10 ^ (e - fs.length) = v →
      Says (ds ++ point ++ mark) v

theorem leading_stripZeros {s : Significand} (h : 0 < s.digits) :
    Leading (stripZeros (toString s.digits).toList)
      (s.place + (toString s.digits).toList.length - 1) (s.digits * 10 ^ s.place) := by
  rw [toList_toString]
  have hhead := head?_toDigits h
  have hvalue : Nat.ofDigitChars 10 (Nat.toDigits 10 s.digits) 0 = s.digits :=
    Nat.ofDigitChars_ten_toDigits
  have hdigit : ∀ c ∈ Nat.toDigits 10 s.digits, c.isDigit = true := fun c hc =>
    Nat.isDigit_of_mem_toDigits (by norm_num) le_rfl hc
  have hne : Nat.toDigits 10 s.digits ≠ [] := Nat.toDigits_ne_nil
  generalize Nat.toDigits 10 s.digits = cs at *
  obtain ⟨k, hk⟩ := exists_stripZeros cs
  set ds := stripZeros cs
  have hds : ds ≠ [] := by
    intro hnil
    rw [hnil, List.nil_append] at hk
    cases k with
    | zero => exact hne hk
    | succ k => exact hhead (by rw [hk]; rfl)
  refine ⟨⟨hds, fun c hc => hdigit c (by rw [hk]; exact List.mem_append_left _ hc)⟩, ?_, ?_⟩
  · rwa [hk, List.head?_append_of_ne_nil _ hds] at hhead
  · rw [hk, Nat.ofDigitChars_append, Nat.ofDigitChars_replicate_zero] at hvalue
    have hplace : s.place + cs.length - 1 + 1 - ds.length = s.place + k := by
      rw [hk, List.length_append, List.length_replicate]
      push_cast
      ring
    rw [hplace, ← hvalue, zpow_add₀ (by norm_num), zpow_natCast]
    push_cast
    ring

section

variable {ds : List Char} {e : ℤ} {v : ℚ}

/-- Zeros before the digits. -/
theorem Leading.says_small (h : Leading ds e v) (he : e < 0) :
    Says ('0' :: '.' :: (List.replicate (-e - 1).toNat '0' ++ ds)) v := by
  have hdigits : Digits (List.replicate (-e - 1).toNat '0' ++ ds) := by
    refine ⟨List.append_ne_nil_of_right_ne_nil _ h.digits.1, fun c hc => ?_⟩
    rcases List.mem_append.mp hc with hc | hc
    · exact isDigit_of_mem_replicate hc
    · exact h.digits.2 c hc
  have hsays := Says.intro (v := v) (.inl rfl) (.some hdigits) .none (List.cons_ne_nil _ _) ?_
  · rwa [List.append_nil] at hsays
  · rw [← List.replicate_one, ← List.append_assoc, List.replicate_append_replicate,
      Nat.ofDigitChars_append, Nat.ofDigitChars_replicate_zero, Nat.mul_zero, ← h.value]
    congr 2
    rw [List.length_append, List.length_replicate]
    omega

/-- Zeros after the digits. -/
theorem Leading.says_whole (h : Leading ds e v) (hle : ds.length ≤ (e + 1).toNat) :
    Says (ds ++ List.replicate ((e + 1).toNat - ds.length) '0' ++ ['.', '0']) v := by
  have hne := h.digits.1
  have hdigits : Digits (ds ++ List.replicate ((e + 1).toNat - ds.length) '0') := by
    refine ⟨List.append_ne_nil_of_left_ne_nil hne _, fun c hc => ?_⟩
    rcases List.mem_append.mp hc with hc | hc
    · exact h.digits.2 c hc
    · exact isDigit_of_mem_replicate hc
  have hwhole : Whole (ds ++ List.replicate ((e + 1).toNat - ds.length) '0') :=
    .inr ⟨hdigits, by rw [List.head?_append_of_ne_nil _ hne]; exact h.head⟩
  have hpoint : Fraction ['.', '0'] ['0'] := .some ⟨List.cons_ne_nil _ _, by simp⟩
  have hsays := Says.intro (v := v) hwhole hpoint .none (List.cons_ne_nil _ _) ?_
  · rwa [List.append_nil] at hsays
  · have hlen := List.length_pos_iff.mpr hne
    have hplace : e + 1 - ds.length = ((e + 1).toNat - ds.length : ℕ) := by omega
    rw [List.append_assoc, ← List.replicate_one, List.replicate_append_replicate,
      Nat.ofDigitChars_append, Nat.ofDigitChars_replicate_zero, ← h.value, hplace, zpow_natCast]
    push_cast
    rw [pow_succ]
    norm_num
    ring

/-- A point between the digits. -/
theorem Leading.says_broken (h : Leading ds e v) (he : 0 ≤ e) (hlt : (e + 1).toNat < ds.length) :
    Says (ds.take (e + 1).toNat ++ '.' :: ds.drop (e + 1).toNat) v := by
  have hpos : (e + 1).toNat ≠ 0 := by omega
  have hsplit : ds.take (e + 1).toNat ++ ds.drop (e + 1).toNat = ds := List.take_append_drop _ _
  have hwhole : Whole (ds.take (e + 1).toNat) := by
    refine .inr ⟨⟨?_, fun c hc => h.digits.2 c (List.mem_of_mem_take hc)⟩, ?_⟩
    · rw [Ne, List.take_eq_nil_iff, not_or]
      exact ⟨hpos, h.digits.1⟩
    · rw [List.head?_take, if_neg hpos]
      exact h.head
  have hpoint : Fraction ('.' :: ds.drop (e + 1).toNat) (ds.drop (e + 1).toNat) := by
    refine .some ⟨?_, fun c hc => h.digits.2 c (List.mem_of_mem_drop hc)⟩
    rw [Ne, List.drop_eq_nil_iff]
    omega
  have hsays := Says.intro (v := v) hwhole hpoint .none (List.cons_ne_nil _ _) ?_
  · rwa [List.append_nil] at hsays
  · rw [hsplit, ← h.value, List.length_drop]
    congr 2
    omega

/-- A point after the first digit, and an exponent. -/
theorem Leading.says_scientific (h : Leading ds e v) :
    Says (ds.take 1 ++ (if ds.length ≤ 1 then [] else ['.']) ++ ds.drop 1 ++
      (exponentText e).toList) v := by
  have hexp := exponent_exponentText e
  obtain ⟨hdigits, hhead, hvalue⟩ := h
  cases ds with
  | nil => exact absurd rfl hdigits.1
  | cons c cs =>
    have hfirst : Whole [c] := by
      refine .inr ⟨⟨List.cons_ne_nil _ _, List.forall_mem_singleton.mpr ?_⟩, hhead⟩
      exact hdigits.2 c List.mem_cons_self
    cases cs with
    | nil =>
      have hmark : [] ++ (exponentText e).toList ≠ [] := by
        rw [toList_exponentText]
        exact List.cons_ne_nil _ _
      have hsays := Says.intro (v := v) hfirst .none hexp hmark ?_
      · simpa using hsays
      · rw [← hvalue]
        simp
    | cons d cs =>
      have hpoint : Fraction ('.' :: d :: cs) (d :: cs) :=
        .some ⟨List.cons_ne_nil _ _, fun a ha => hdigits.2 a (List.mem_cons_of_mem _ ha)⟩
      have hsays := Says.intro (v := v) hfirst hpoint hexp (List.cons_ne_nil _ _) ?_
      · simpa using hsays
      · have hplace : e - (d :: cs).length = e + 1 - (c :: d :: cs).length := by
          simp only [List.length_cons]
          push_cast
          ring
        rw [← hvalue, hplace]
        rfl

end

/-- **The layout of a decimal says its value.** -/
theorem says_layout {s : Significand} (h : 0 < s.digits) :
    Says (layout Legible.form s).toList (s.digits * 10 ^ s.place) := by
  have hlead := leading_stripZeros h
  obtain ⟨c, cs, hds⟩ := List.exists_cons_of_ne_nil hlead.digits.1
  unfold layout
  dsimp only
  rw [hds] at hlead ⊢
  dsimp only
  set e := s.place + (toString s.digits).toList.length - 1
  set ds := c :: cs
  split
  · split
    next he =>
      simp only [String.toList_append, toList_pushn, String.toList_ofList, List.append_assoc]
      exact hlead.says_small he
    next he =>
      split
      next hle =>
        rw [String.toList_append, toList_pushn, String.toList_ofList]
        exact hlead.says_whole hle
      next hgt =>
        simp only [String.toList_append, String.toList_ofList, List.append_assoc]
        exact hlead.says_broken (not_lt.mp he) (not_le.mp hgt)
  · rw [String.toList_append, String.toList_append, String.toList_append, String.toList_ofList,
      String.toList_ofList, apply_ite String.toList]
    exact hlead.says_scientific

/-! ## 3. Doubles -/

/-- A number that says a value in the interval of a double denotes it. -/
theorem Says.number {cs : List Char} {v : ℚ} (h : Says cs v) {x : Float} {b : Binary}
    (hx : Datum.ofFloat x = .finite b) (hb : 0 < b.mantissa) (hv : (Interval.ofBinary b).Covers v) :
    Number b.negative cs (.real x : Document Float) := by
  obtain ⟨hwhole, hpoint, hmark, hne, rfl⟩ := h
  have hreal : Number b.negative _ (_ : Document Float) := .real hwhole hpoint hmark hne
  rwa [ofNumeral_eq hx hb ?_ hv] at hreal
  refine Nat.pos_of_ne_zero fun hzero => ?_
  have hpos := hv.zpow_le (proper_of_ofFloat hx hb)
  rw [hzero, Nat.cast_zero, zero_mul] at hpos
  exact absurd hpos (not_le.mpr (zpow_pos two_pos _))

theorem toList_shortest (b : Binary) : (shortest Legible.form b).toList = signed b.negative
    (if b.mantissa = 0 then "0" ++ Legible.form.wholeSuffix
      else layout Legible.form (Interval.ofBinary b).significand).toList := by
  unfold shortest signed
  dsimp only
  cases b.negative with
  | false => rfl
  | true =>
    rw [if_pos rfl, if_pos rfl, String.toList_append]
    rfl

/-- The shortest text of a finite number stands for it. -/
theorem denotes_shortest (words : Bool) {x : Float} {b : Binary}
    (hx : Datum.ofFloat x = .finite b) :
    Denotes words (shortest Legible.form b).toList (.real x : Document Float) := by
  rw [toList_shortest]
  refine .number ?_
  split
  next hzero =>
    have hpoint : Fraction ['.', '0'] ['0'] := .some ⟨List.cons_ne_nil _ _, by simp⟩
    have hreal : Number b.negative _ (_ : Document Float) :=
      .real (.inl rfl) hpoint .none (List.cons_ne_nil _ _)
    have hvalue : Nat.ofDigitChars 10 (['0'] ++ ['0']) 0 = 0 := rfl
    rw [hvalue, ofNumeral_zero hx hzero] at hreal
    exact hreal
  next hne =>
    have hb := proper_of_ofFloat hx (Nat.pos_of_ne_zero hne)
    exact (says_layout (significand_pos hb)).number hx hb.pos (covers_significand hb)

theorem shortest_of_finite {x : Float} {b : Binary} (hx : Datum.ofFloat x = .finite b) :
    Legible.shortest x = shortest Legible.form b := by
  simp only [Legible.shortest, hx]

theorem writtenReal_of_finite {x : Float} {b : Binary} (hx : Datum.ofFloat x = .finite b) :
    writtenReal x = shortest Legible.form b := by
  have hdefined : Datum.ofFloat x ≠ .undefined := by
    rw [hx]
    exact Datum.noConfusion
  rw [writtenReal, undefined_eq_false hdefined, isInfinite_eq_false hx, shortest_of_finite hx]
  rfl

/-- **What is written for a double stands for it**, in words if it is not finite. -/
theorem denotes_writtenReal (x : Float) :
    Denotes true (writtenReal x).toList (.real x : Document Float) := by
  cases hx : Datum.ofFloat x with
  | finite b =>
    rw [writtenReal_of_finite hx]
    exact denotes_shortest true hx
  | infinite negative =>
    obtain rfl := eq_of_infinite hx
    have hword : Denotes true (signed negative _) (_ : Document Float) := .infinite rfl
    cases negative with
    | false =>
      have htext : writtenReal (Scalar.infinity : Float) = "Infinity" := by decide +kernel
      rw [if_neg Bool.false_ne_true, htext]
      exact hword
    | true =>
      have htext : writtenReal (-Scalar.infinity : Float) = "-Infinity" := by decide +kernel
      rw [if_pos rfl, htext]
      exact hword
  | undefined =>
    obtain rfl := eq_of_undefined hx
    have htext : writtenReal (Scalar.nothing : Float) = "NaN" := by decide +kernel
    rw [htext]
    exact .undefined rfl

end Document
end Graded
