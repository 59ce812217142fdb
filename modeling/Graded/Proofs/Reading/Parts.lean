/-
# Reading the parts of a text

The reader takes as many digits as it can and decides what to do by the next character, where the
grammar only says what stands for what.  It still reads every number as what it stands for, if what
follows does not continue the number (`Number.readNumber`), and every spelling as what it spells,
up to the closing quote (`Spells.readText`).
-/
import Graded.Proofs.Grammar

namespace Graded

/-! ## 1. Entries without repetition -/

namespace Keyed

variable {β : Type}

/-- A new name comes to stand at the end. -/
theorem put_of_notMem {key : String} (value : β) {entries : Keyed β} (h : key ∉ entries.keys) :
    put key value entries = entries ++ [(key, value)] := by
  induction entries with
  | nil => rfl
  | cons e rest ih =>
    obtain ⟨k, v⟩ := e
    simp only [keys, List.map_cons, List.mem_cons, not_or] at h
    rw [put, if_neg (Ne.symm h.1), ih h.2, List.cons_append]

/-- Pairs with different names are the entries they make. -/
theorem ofPairs_of_nodup {pairs : Keyed β} (h : pairs.keys.Nodup) : ofPairs pairs = pairs := by
  have hfold : ∀ {pairs entries : Keyed β}, (keys (entries ++ pairs)).Nodup →
      pairs.foldl (fun entries p => put p.1 p.2 entries) entries = entries ++ pairs := by
    intro pairs
    induction pairs with
    | nil => simp
    | cons p pairs ih =>
      intro entries h
      have hnew : p.1 ∉ keys entries := fun hmem => by
        simp only [keys, List.map_append, List.map_cons] at h hmem
        exact (List.disjoint_of_nodup_append h) hmem List.mem_cons_self
      rw [List.foldl_cons, put_of_notMem p.2 hnew, ih (by simpa using h), List.append_assoc,
        List.singleton_append]
  exact @hfold pairs [] h

end Keyed

namespace Document

variable {α : Type} [Scalar α]

/-! ## 2. Blanks and digits -/

/-- The text does not begin with a character for which `p` holds. -/
def Avoids (p : Char → Bool) (cs : List Char) : Prop := ∀ c ∈ cs.head?, p c = false

theorem avoids_nil (p : Char → Bool) : Avoids p [] := by simp [Avoids]

theorem avoids_cons {p : Char → Bool} {c : Char} {cs : List Char} (h : p c = false) :
    Avoids p (c :: cs) := by simpa [Avoids] using h

theorem takeWhile_append_of_avoids {p : Char → Bool} {cs rest : List Char}
    (h : ∀ c ∈ cs, p c = true) (hrest : Avoids p rest) :
    (cs ++ rest).takeWhile p = cs ∧ (cs ++ rest).dropWhile p = rest := by
  rw [List.takeWhile_append_of_pos h, List.dropWhile_append_of_pos h]
  cases rest with
  | nil => simp
  | cons c rest =>
    have hc : p c = false := hrest c rfl
    simp [hc]

theorem skipGaps_append {g cs : List Char} (hg : Gap g) (hcs : Avoids isGap cs) :
    skipGaps (g ++ cs) = cs := (takeWhile_append_of_avoids hg hcs).2

theorem skipGaps_skipGaps (cs : List Char) : skipGaps (skipGaps cs) = skipGaps cs :=
  List.dropWhile_idempotent _ _

theorem digitsOf_append {ds rest : List Char} (hds : ∀ c ∈ ds, c.isDigit = true)
    (hrest : Avoids Char.isDigit rest) : digitsOf (ds ++ rest) = (ds, rest) := by
  obtain ⟨htake, hdrop⟩ := takeWhile_append_of_avoids hds hrest
  rw [digitsOf, htake, hdrop]

theorem valueOf_eq (ds : List Char) : valueOf ds = Nat.ofDigitChars 10 ds 0 := rfl

/-! ## 3. Numbers -/

/-- The text does not continue a number. -/
def Ends (rest : List Char) : Prop := Avoids isNumberChar rest

theorem Ends.avoids {rest : List Char} (h : Ends rest) {p : Char → Bool}
    (hp : ∀ c, p c = true → isNumberChar c = true) : Avoids p rest := by
  intro c hc
  by_contra hpc
  rw [Bool.not_eq_false] at hpc
  exact absurd (h c hc) (by simp [hp c hpc])

/-- Nothing goes on with a number after blanks. -/
theorem Gap.ends_append {h rest : List Char} (hh : Gap h) (hrest : Ends rest) :
    Ends (h ++ rest) := by
  cases h with
  | nil => exact hrest
  | cons b h =>
    have hb : isGap b = true := hh b List.mem_cons_self
    simp only [isGap, Bool.or_eq_true, beq_iff_eq] at hb
    rcases hb with ((rfl | rfl) | rfl) | rfl <;> exact avoids_cons rfl

/-- It does not continue the whole digits or a fraction. -/
theorem Ends.digit_point {rest : List Char} (h : Ends rest) :
    Avoids (fun c => c.isDigit || c == '.') rest := by
  refine h.avoids fun c hc => ?_
  simp only [isNumberChar, Bool.or_eq_true] at hc ⊢
  tauto

/-- Nor does it begin an exponent. -/
theorem Ends.mark {rest : List Char} (h : Ends rest) :
    Avoids (fun c => c == 'e' || c == 'E') rest := by
  refine h.avoids fun c hc => ?_
  simp only [isNumberChar, Bool.or_eq_true] at hc ⊢
  tauto

theorem Avoids.left {p q : Char → Bool} {cs : List Char} (h : Avoids (fun c => p c || q c) cs) :
    Avoids p cs := fun c hc => (Bool.or_eq_false_iff.mp (h c hc)).1

theorem Avoids.right {p q : Char → Bool} {cs : List Char} (h : Avoids (fun c => p c || q c) cs) :
    Avoids q cs := fun c hc => (Bool.or_eq_false_iff.mp (h c hc)).2

theorem fractionOf?_of_avoids {rest : List Char} (h : Avoids (· == '.') rest) :
    fractionOf? rest = none := by
  cases rest with
  | nil => rfl
  | cons c rest =>
    have hc : c ≠ '.' := by simpa using h c rfl
    unfold fractionOf?
    split
    · rename_i heq
      exact absurd (List.cons.inj heq).1 hc
    · rfl

theorem Digits.exists_cons {ds : List Char} (h : Digits ds) :
    ∃ d ds', ds = d :: ds' ∧ d.isDigit = true := by
  obtain ⟨hne, hds⟩ := h
  cases ds with
  | nil => exact absurd rfl hne
  | cons d ds' => exact ⟨d, ds', rfl, hds d List.mem_cons_self⟩

theorem ne_of_isDigit {c d : Char} (hc : c.isDigit = true) (hd : d.isDigit = false) : c ≠ d := by
  rintro rfl
  simp [hc] at hd

theorem Fraction.fractionOf? {point fs rest : List Char} (h : Fraction point fs)
    (hrest : Avoids (fun c => c.isDigit || c == '.') rest) :
    (fractionOf? (point ++ rest)).getD ([], point ++ rest) = (fs, rest) := by
  cases h with
  | none =>
    rw [List.nil_append, fractionOf?_of_avoids hrest.right]
    rfl
  | some h =>
    obtain ⟨d, ds, rfl, -⟩ := h.exists_cons
    rw [List.cons_append, Document.fractionOf?, digitsOf_append h.2 hrest.left]
    rfl

theorem exponentOf?_of_avoids {rest : List Char} (h : Avoids (fun c => c == 'e' || c == 'E') rest) :
    exponentOf? rest = none := by
  cases rest with
  | nil => rfl
  | cons c rest =>
    have hc : (c == 'e' || c == 'E') = false := h c rfl
    simp [exponentOf?, hc]

theorem Exponent.exponentOf? {mark rest : List Char} {e : Int} (h : Exponent mark e)
    (hne : mark ≠ []) (hrest : Avoids Char.isDigit rest) :
    exponentOf? (mark ++ rest) = some (e, rest) := by
  have hmark : ∀ {c : Char}, c = 'e' ∨ c = 'E' → (c == 'e' || c == 'E') = true := by simp
  cases h with
  | none => exact absurd rfl hne
  | plain hc h =>
    obtain ⟨d, ds, rfl, hd⟩ := h.exists_cons
    have hdigits := digitsOf_append h.2 hrest
    rw [List.cons_append] at hdigits
    simp [Document.exponentOf?, hmark hc, ne_of_isDigit hd, hdigits, valueOf_eq]
  | plus hc h =>
    obtain ⟨d, ds, rfl, hd⟩ := h.exists_cons
    have hdigits := digitsOf_append h.2 hrest
    rw [List.cons_append] at hdigits
    simp [Document.exponentOf?, hmark hc, hdigits, valueOf_eq]
  | minus hc h =>
    obtain ⟨d, ds, rfl, hd⟩ := h.exists_cons
    have hdigits := digitsOf_append h.2 hrest
    rw [List.cons_append] at hdigits
    simp [Document.exponentOf?, hmark hc, hdigits, valueOf_eq]

theorem Whole.ne_nil {ds : List Char} (h : Whole ds) : ds ≠ [] := by
  rcases h with rfl | ⟨h, -⟩
  · exact List.cons_ne_nil _ _
  · exact h.1

theorem Whole.wholeOf {ds rest : List Char} (h : Whole ds) (hrest : Avoids Char.isDigit rest) :
    wholeOf (ds ++ rest) = (ds, rest) := by
  rcases h with rfl | ⟨h, hzero⟩
  · rfl
  · obtain ⟨d, ds, rfl, -⟩ := h.exists_cons
    have hdigits := digitsOf_append h.2 hrest
    have hne : d ≠ '0' := by simpa using hzero
    rw [List.cons_append] at hdigits ⊢
    simp [Document.wholeOf, hne, hdigits]

theorem Exponent.avoids_append {mark rest : List Char} {e : Int} (h : Exponent mark e)
    (hrest : Ends rest) : Avoids (fun c => c.isDigit || c == '.') (mark ++ rest) := by
  have hmark : ∀ {c : Char} {cs : List Char}, c = 'e' ∨ c = 'E' →
      Avoids (fun c => c.isDigit || c == '.') (c :: cs) := by
    rintro c cs (rfl | rfl) <;> exact avoids_cons rfl
  cases h with
  | none => exact hrest.digit_point
  | plain hc _ => exact hmark hc
  | plus hc _ => exact hmark hc
  | minus hc _ => exact hmark hc

theorem Fraction.avoids_append {point fs rest : List Char} (h : Fraction point fs)
    (hrest : Avoids Char.isDigit rest) : Avoids Char.isDigit (point ++ rest) := by
  cases h with
  | none => exact hrest
  | some _ => exact avoids_cons rfl

theorem one_le_of_isDigit {d : Char} (hd : d.isDigit = true) (hne : d ≠ '0') :
    1 ≤ d.toNat - '0'.toNat := by
  have hne' : d.toNat ≠ '0'.toNat := fun h => hne (Char.toNat_inj.mp h)
  simp only [Char.isDigit, ge_iff_le, Bool.and_eq_true, decide_eq_true_eq] at hd
  have hlow : '0'.toNat ≤ d.toNat := hd.1
  omega

/-- Whole digits are at most as many as their value has. -/
theorem Whole.length_le {ds : List Char} (h : Whole ds) {n : Nat} (hn : 0 < n)
    (hlt : Nat.ofDigitChars 10 ds 0 < 10 ^ n) : ds.length ≤ n := by
  rcases h with rfl | ⟨h, hzero⟩
  · exact hn
  · obtain ⟨d, ds, rfl, hd⟩ := h.exists_cons
    have hfirst : 1 ≤ d.toNat - '0'.toNat := one_le_of_isDigit hd (by simpa using hzero)
    rw [Nat.ofDigitChars_cons, Nat.ofDigitChars_eq_ofDigitChars_zero] at hlt
    have hpow : 10 ^ ds.length < 10 ^ n := calc
      10 ^ ds.length ≤ 10 ^ ds.length * (10 * 0 + (d.toNat - '0'.toNat)) :=
        Nat.le_mul_of_pos_right _ (by omega)
      _ ≤ _ := Nat.le_add_right _ _
      _ < 10 ^ n := hlt
    exact (Nat.pow_lt_pow_iff_right (by decide)).mp hpow

/-- **A number is read as what it stands for**, if it is a real or not too long. -/
theorem Number.readUnsigned {negative : Bool} {cs rest : List Char} {d : Document α}
    (h : Number negative cs d) (hrest : Ends rest)
    (hshort : ∀ n, d = .integer n → n.natAbs < 10 ^ mostDigits) :
    readUnsigned negative (cs ++ rest) = .ok (d, rest) := by
  have hdigit : Avoids Char.isDigit rest := hrest.digit_point.left
  cases h with
  | integer hw =>
    have hlt : Nat.ofDigitChars 10 cs 0 < 10 ^ mostDigits := by
      have := hshort _ rfl
      split at this <;> simpa using this
    have hlength : ¬ mostDigits < cs.length := not_lt.mpr (hw.length_le (by decide) hlt)
    have hfraction := fractionOf?_of_avoids hrest.digit_point.right
    have hexponent := exponentOf?_of_avoids hrest.mark
    obtain ⟨d, ds, rfl⟩ := List.exists_cons_of_ne_nil hw.ne_nil
    rw [Document.readUnsigned, hw.wholeOf hdigit]
    simp only [hfraction, hexponent, Option.getD_none, List.isEmpty_nil, Option.isNone_none,
      Bool.and_self, if_true, if_neg hlength, valueOf_eq]
  | @real ds point fs mark e hw hf he hne =>
    have hafter := he.avoids_append hrest
    have hwhole := hw.wholeOf (hf.avoids_append hafter.left)
    have hfraction := hf.fractionOf? hafter
    obtain ⟨d, ds, rfl⟩ := List.exists_cons_of_ne_nil hw.ne_nil
    rw [Document.readUnsigned, List.append_assoc, List.append_assoc, hwhole]
    simp only [hfraction]
    by_cases hnil : mark = []
    · subst hnil
      cases he
      have hfs : fs.isEmpty = false := by
        cases hf with
        | none => exact absurd rfl hne
        | some h => simpa using h.1
      simp only [List.nil_append, exponentOf?_of_avoids hrest.mark, hfs, Bool.false_and,
        Bool.false_eq_true, if_false, Option.getD_none, valueOf_eq]
    · simp only [he.exponentOf? hnil hdigit, Option.isNone_some, Bool.and_false, Bool.false_eq_true,
        if_false, Option.getD_some, valueOf_eq]

theorem Number.exists_cons {negative : Bool} {cs : List Char} {d : Document α}
    (h : Number negative cs d) : ∃ c cs', cs = c :: cs' ∧ c.isDigit = .true := by
  have hwhole : ∀ {ds : List Char}, Whole ds → ∀ rest,
      ∃ c cs', ds ++ rest = c :: cs' ∧ c.isDigit = .true := by
    rintro ds (rfl | ⟨h, -⟩) rest
    · exact ⟨'0', rest, rfl, rfl⟩
    · obtain ⟨d, ds, rfl, hd⟩ := h.exists_cons
      exact ⟨d, ds ++ rest, rfl, hd⟩
  cases h with
  | integer hw => simpa using hwhole hw []
  | real hw _ _ _ => simpa only [List.append_assoc] using hwhole hw _

/-- **A number with its sign is read as what it stands for.** -/
theorem Number.readNumber {negative : Bool} {cs rest : List Char} {d : Document α}
    (h : Number negative cs d) (hrest : Ends rest)
    (hshort : ∀ n, d = .integer n → n.natAbs < 10 ^ mostDigits) :
    readNumber (signed negative cs ++ rest) = .ok (d, rest) := by
  have hread := h.readUnsigned hrest hshort
  obtain ⟨c, cs, rfl, hc⟩ := h.exists_cons
  rw [List.cons_append] at hread
  cases negative with
  | true =>
    have hword : afterWord? "Infinity".toList (c :: (cs ++ rest)) = none :=
      if_neg (ne_of_isDigit hc rfl).symm
    rw [signed, if_pos rfl, List.cons_append, List.cons_append, Document.readNumber, hword]
    exact hread
  | false =>
    simpa [signed, Document.readNumber, ne_of_isDigit hc] using hread

/-! ## 4. Texts -/

theorem CodeUnit.unit? {u rest : List Char} {n : Nat} (h : CodeUnit u n) :
    unit? (u ++ rest) = some (n, rest) := by
  obtain ⟨ha, hb, hc, hd⟩ := h
  simp [Document.unit?, ha, hb, hc, hd]

theorem exists_codeUnit_of_unit? {cs rest : List Char} {n : Nat} (h : unit? cs = some (n, rest)) :
    ∃ u, CodeUnit u n ∧ cs = u ++ rest := by
  unfold Document.unit? at h
  split at h
  · simp only [Option.bind_eq_bind, Option.bind_eq_some_iff, Option.pure_def, Option.some.injEq,
      Prod.mk.injEq] at h
    obtain ⟨i, ha, j, hb, k, hc, l, hd, rfl, rfl⟩ := h
    exact ⟨_, ⟨ha, hb, hc, hd⟩, rfl⟩
  · cases h

theorem CodeUnit.quote_notMem {u : List Char} {n : Nat} (h : CodeUnit u n) : '"' ∉ u := by
  have hquote : ∀ {c : Char} {i : Nat}, Text.hexDigit? c = some i → '"' ≠ c := by
    rintro c i hc rfl
    cases hc
  obtain ⟨ha, hb, hc, hd⟩ := h
  simp [hquote ha, hquote hb, hquote hc, hquote hd]

/-- Digits in front of a closing quote stand before it. -/
theorem exists_append_of_quote {u v w rest : List Char} (hu : '"' ∉ u)
    (h : w ++ '"' :: rest = u ++ v) : ∃ v', w = u ++ v' := by
  rcases List.append_eq_append_iff.mp h with ⟨a, rfl, ha⟩ | ⟨a, rfl, -⟩
  · cases a with
    | nil => exact ⟨[], by simp⟩
    | cons c a =>
      obtain ⟨rfl, -⟩ := List.cons.inj ha
      simp at hu
  · exact ⟨a, rfl⟩

theorem escapedUnit?_unit {u : List Char} {n : Nat} (h : CodeUnit u n) (hhigh : ¬ IsHigh n)
    (rest : List Char) :
    escapedUnit? (u ++ rest) = some (ofUnit n, rest) := by
  simp only [escapedUnit?, h.unit?, Option.bind_eq_bind, Option.bind_some, Bool.and_eq_true,
    decide_eq_true_eq, Option.pure_def]
  exact if_neg hhigh

theorem escapedUnit?_pair {u v : List Char} {n m : Nat} (hu : CodeUnit u n) (hv : CodeUnit v m)
    (hn : IsHigh n) (hm : IsLow m) (rest : List Char) :
    escapedUnit? (u ++ '\\' :: 'u' :: v ++ rest) =
      some (Char.ofNat (0x10000 + (n - 0xD800) * 0x400 + (m - 0xDC00)), rest) := by
  simp [escapedUnit?, hu.unit?, hv.unit?, hn.1, hn.2, hm.1, hm.2]

theorem ofUnit_of_isHigh {n : Nat} (h : IsHigh n) : ofUnit n = Text.ofHalf n := by
  obtain ⟨h1, h2⟩ := h
  have hhalf : Text.isHalf n = true := by simp [Text.isHalf, h1]; omega
  rw [ofUnit, hhalf, if_pos rfl]

theorem ofUnit_of_isLow {n : Nat} (h : IsLow n) : ofUnit n = Text.ofHalf n := by
  obtain ⟨h1, h2⟩ := h
  have hhalf : Text.isHalf n = true := by simp [Text.isHalf, h2]; omega
  rw [ofUnit, hhalf, if_pos rfl]

theorem ofUnit_of_not {n : Nat} (hhigh : ¬ IsHigh n) (hlow : ¬ IsLow n) :
    ofUnit n = Char.ofNat n := by
  have hhalf : Text.isHalf n = false := by
    simp only [IsHigh, IsLow, Text.isHalf, Bool.and_eq_false_iff, decide_eq_false_iff_not] at *
    omega
  rw [ofUnit, hhalf, if_neg Bool.false_ne_true]

/-- The first half of a pair stays alone if the second does not follow. -/
theorem escapedUnit?_half {u w rest : List Char} {n : Nat} (hu : CodeUnit u n) (hn : IsHigh n)
    (hlow : ¬ OpensLow w) :
    escapedUnit? (u ++ (w ++ '"' :: rest)) = some (Text.ofHalf n, w ++ '"' :: rest) := by
  simp only [escapedUnit?, hu.unit?, Option.bind_eq_bind, Option.bind_some, Bool.and_eq_true,
    decide_eq_true_eq, Option.pure_def, ofUnit_of_isHigh hn]
  rw [if_pos (And.intro hn.1 hn.2)]
  split
  · rename_i more heq
    split
    · rename_i m rest' hm
      split
      · rename_i hmlow
        exfalso
        obtain ⟨v, hv, rfl⟩ := exists_codeUnit_of_unit? hm
        have hquote : '"' ∉ '\\' :: 'u' :: v := by simp [hv.quote_notMem]
        obtain ⟨v', rfl⟩ := exists_append_of_quote hquote (v := rest') (by simpa using heq)
        exact hlow ⟨v, m, v', hv, hmlow, rfl⟩
      · rfl
    · rfl
  · rfl

theorem readQuoted_plain {c : Char} {cs seen : List Char} (bound : Nat) (hq : c ≠ '"')
    (hb : c ≠ '\\') (hc : 0x20 ≤ c.toNat) :
    readQuoted (bound + 1) seen (c :: cs) = readQuoted bound (c :: seen) cs := by
  simp [readQuoted, hb, hc]

theorem readQuoted_letter {l c : Char} {cs seen : List Char} (bound : Nat)
    (h : escapedLetter? l = some c) :
    readQuoted (bound + 1) seen ('\\' :: l :: cs) = readQuoted bound (c :: seen) cs := by
  have hu : l ≠ 'u' := by
    rintro rfl
    cases h
  simp [readQuoted, h]

theorem readQuoted_unit {c : Char} {cs seen rest : List Char} (bound : Nat)
    (h : escapedUnit? cs = some (c, rest)) :
    readQuoted (bound + 1) seen ('\\' :: 'u' :: cs) = readQuoted bound (c :: seen) rest := by
  simp [readQuoted, h]

/-- **A spelling is read as what it spells**, up to the closing quote. -/
theorem Spells.readQuoted {w s : List Char} (h : Spells w s) {bound : Nat} {seen : List Char}
    (rest : List Char) (hbound : w.length < bound) :
    readQuoted bound seen (w ++ '"' :: rest) = some (String.ofList (seen.reverse ++ s), rest) := by
  induction h generalizing bound seen with
  | nil =>
    obtain ⟨bound, rfl⟩ := Nat.exists_eq_add_one_of_ne_zero (Nat.ne_zero_of_lt hbound)
    simp [Document.readQuoted]
  | plain hq hb hc _ ih =>
    obtain ⟨bound, rfl⟩ := Nat.exists_eq_add_one_of_ne_zero (Nat.ne_zero_of_lt hbound)
    rw [List.cons_append, readQuoted_plain bound hq hb hc, ih (by simpa using hbound)]
    simp
  | letter hl _ ih =>
    obtain ⟨bound, rfl⟩ := Nat.exists_eq_add_one_of_ne_zero (Nat.ne_zero_of_lt hbound)
    rw [List.cons_append, List.cons_append, readQuoted_letter bound hl,
      ih (by simp at hbound; omega)]
    simp
  | @unit u w s n hu hhigh hlow _ ih =>
    obtain ⟨bound, rfl⟩ := Nat.exists_eq_add_one_of_ne_zero (Nat.ne_zero_of_lt hbound)
    have hescape := escapedUnit?_unit hu hhigh (w ++ '"' :: rest)
    rw [ofUnit_of_not hhigh hlow] at hescape
    simp only [List.cons_append, List.append_assoc]
    rw [readQuoted_unit bound hescape, ih (by simp at hbound; omega)]
    simp
  | @pair u v w s n m hu hv hn hm _ ih =>
    obtain ⟨bound, rfl⟩ := Nat.exists_eq_add_one_of_ne_zero (Nat.ne_zero_of_lt hbound)
    have hescape := escapedUnit?_pair hu hv hn hm (w ++ '"' :: rest)
    simp only [List.cons_append, List.append_assoc] at hescape ⊢
    rw [readQuoted_unit bound hescape, ih (by simp at hbound; omega)]
    simp
  | @half u w s n hu hhalf _ ih =>
    obtain ⟨bound, rfl⟩ := Nat.exists_eq_add_one_of_ne_zero (Nat.ne_zero_of_lt hbound)
    have hescape : escapedUnit? (u ++ (w ++ '"' :: rest)) =
        some (Text.ofHalf n, w ++ '"' :: rest) := by
      rcases hhalf with ⟨hn, hlow⟩ | hn
      · exact escapedUnit?_half hu hn hlow
      · have hhigh : ¬ IsHigh n := fun hhigh => absurd (hhigh.2.trans_lt (by decide)) hn.1.not_gt
        rw [escapedUnit?_unit hu hhigh, ofUnit_of_isLow hn]
    simp only [List.cons_append, List.append_assoc]
    rw [readQuoted_unit bound hescape, ih (by simp at hbound; omega)]
    simp

theorem Spells.readText {w s : List Char} (h : Spells w s) (rest : List Char) :
    readText ('"' :: w ++ '"' :: rest) = some (String.ofList s, rest) := by
  rw [List.cons_append, Document.readText, h.readQuoted rest (by simp), List.reverse_nil,
    List.nil_append]

end Document
end Graded
