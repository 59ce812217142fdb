/-
# Writing the parts of a text

What is written for a character spells that character, and what is written for a whole number is a
number of the grammar.  There is one exception, and it is about two characters: both halves of a
pair in a row, each without its other half, are spelled as the pair, which is one character.  A text
in which this does not occur is well paired, and is spelled by what is written for it
(`denotes_writtenText`).
-/
import Graded.Proofs.Grammar
import Graded.Document.Printer

namespace Graded
namespace Document

variable {α : Type} [Scalar α]

/-! ## 1. Code units -/

theorem hexDigit?_digitChar {d : Nat} (h : d < 16) : Text.hexDigit? (Nat.digitChar d) = some d := by
  interval_cases d <;> rfl

/-- One digit more. -/
theorem hexadecimal_succ (width n : Nat) : Text.hexadecimal (width + 2) n =
    Text.hexadecimal (width + 1) (n / 16) ++ [Nat.digitChar (n % 16)] := by
  unfold Text.hexadecimal
  by_cases h : n < 16
  · have hdiv : n / 16 = 0 := Nat.div_eq_of_lt h
    rw [hdiv, Nat.mod_eq_of_lt h, Nat.toDigits_of_lt_base h, Nat.toDigits_zero]
    simp [List.replicate_succ']
  · rw [Nat.toDigits_of_base_le (by decide) (Nat.not_lt.mp h)]
    simp

/-- A code unit in four digits stands for itself. -/
theorem codeUnit_hexadecimal {n : Nat} (h : n < 0x10000) : CodeUnit (Text.hexadecimal 4 n) n := by
  have hlast : n / 16 / 16 / 16 < 16 := by omega
  have hone : Text.hexadecimal 1 (n / 16 / 16 / 16) = [Nat.digitChar (n / 16 / 16 / 16)] := by
    unfold Text.hexadecimal
    rw [Nat.toDigits_of_lt_base hlast]
    rfl
  have hvalue :
      ((n / 16 / 16 / 16 * 16 + n / 16 / 16 % 16) * 16 + n / 16 % 16) * 16 + n % 16 = n := by
    omega
  rw [hexadecimal_succ, hexadecimal_succ, hexadecimal_succ, hone]
  conv => rhs; rw [← hvalue]
  have hdigit : ∀ m, Text.hexDigit? (Nat.digitChar (m % 16)) = some (m % 16) := fun m =>
    hexDigit?_digitChar (Nat.mod_lt m (by decide))
  exact .intro (hexDigit?_digitChar hlast) (hdigit _) (hdigit _) (hdigit _)

/-- Digits stand for one code unit. -/
theorem CodeUnit.unique {u v w x : List Char} {n m : Nat} (hu : CodeUnit u n) (hv : CodeUnit v m)
    (h : u ++ w = v ++ x) : n = m := by
  obtain ⟨ha, hb, hc, hd⟩ := hu
  obtain ⟨ha', hb', hc', hd'⟩ := hv
  simp only [List.cons_append, List.cons.injEq] at h
  obtain ⟨rfl, rfl, rfl, rfl, -⟩ := h
  rw [ha] at ha'
  rw [hb] at hb'
  rw [hc] at hc'
  rw [hd] at hd'
  cases ha'
  cases hb'
  cases hc'
  cases hd'
  rfl

/-! ## 2. Characters -/

/-- The two characters stand for the two halves of one pair. -/
def FormPair (a b : Char) : Prop :=
  (∃ n, Text.half? a = some n ∧ IsHigh n) ∧ ∃ m, Text.half? b = some m ∧ IsLow m

/-- No two characters in a row stand for the two halves of one pair. -/
def WellPaired (cs : List Char) : Prop := cs.IsChain fun a b => ¬ FormPair a b

theorem half?_eq_some {c : Char} {n : Nat} (h : Text.half? c = some n) :
    Text.isHalf n = true ∧ Text.ofHalf n = c := by
  simp only [Text.half?] at h
  split at h
  · rename_i hhalf
    obtain rfl := Option.some.inj h
    refine ⟨hhalf, ?_⟩
    simp only [Text.isHalf, Bool.and_eq_true, decide_eq_true_eq] at hhalf
    have hplace : Text.halfDistance + (c.toNat - Text.halfDistance) = c.toNat := by omega
    rw [Text.ofHalf, hplace, Char.ofNat_toNat]
  · cases h

theorem IsHigh.lt {n : Nat} (h : IsHigh n) : n < 0x10000 := Nat.lt_of_le_of_lt h.2 (by norm_num)

theorem IsLow.lt {n : Nat} (h : IsLow n) : n < 0x10000 := Nat.lt_of_le_of_lt h.2 (by norm_num)

theorem isHalf_iff {n : Nat} : Text.isHalf n = true ↔ IsHigh n ∨ IsLow n := by
  simp only [Text.isHalf, IsHigh, IsLow, Bool.and_eq_true, decide_eq_true_eq]
  omega

/-- No character of the first plane is half a pair. -/
theorem not_half_of_lt {c : Char} (h : c.toNat < 0x10000) : ¬ IsHigh c.toNat ∧ ¬ IsLow c.toNat := by
  have hvalid : c.toNat < 0xD800 ∨ 0xDFFF < c.toNat ∧ c.toNat < 0x110000 := c.valid
  simp only [IsHigh, IsLow]
  omega

/-- The pair of code units for a character beyond the first plane. -/
theorem pair_spec {c : Char} (h : 0x10000 ≤ c.toNat) :
    IsHigh (0xD800 + (c.toNat - 0x10000) / 0x400) ∧
      IsLow (0xDC00 + (c.toNat - 0x10000) % 0x400) ∧
      Char.ofNat (0x10000 + (0xD800 + (c.toNat - 0x10000) / 0x400 - 0xD800) * 0x400 +
        (0xDC00 + (c.toNat - 0x10000) % 0x400 - 0xDC00)) = c := by
  have hvalid : c.toNat < 0xD800 ∨ 0xDFFF < c.toNat ∧ c.toNat < 0x110000 := c.valid
  simp only [IsHigh, IsLow]
  refine ⟨by omega, by omega, ?_⟩
  have hvalue : 0x10000 + (0xD800 + (c.toNat - 0x10000) / 0x400 - 0xD800) * 0x400 +
      (0xDC00 + (c.toNat - 0x10000) % 0x400 - 0xDC00) = c.toNat := by omega
  rw [hvalue, Char.ofNat_toNat]

theorem spells_escapedUnit {n : Nat} {w s : List Char} (h : Spells w s)
    (hhalf : Text.isHalf n = true) (hpair : IsHigh n → ¬ OpensLow w) :
    Spells (escapedUnit n ++ w) (Text.ofHalf n :: s) := by
  rw [isHalf_iff] at hhalf
  have hlt : n < 0x10000 := hhalf.elim IsHigh.lt IsLow.lt
  exact .half (codeUnit_hexadecimal hlt) (hhalf.imp (fun hn => ⟨hn, hpair hn⟩) id) h

theorem spells_pair {n m : Nat} {w s : List Char} (h : Spells w s) (hn : IsHigh n) (hm : IsLow m) :
    Spells (escapedUnit n ++ escapedUnit m ++ w)
      (Char.ofNat (0x10000 + (n - 0xD800) * 0x400 + (m - 0xDC00)) :: s) := by
  have hunit := Spells.pair (codeUnit_hexadecimal hn.lt) (codeUnit_hexadecimal hm.lt) hn hm h
  simpa only [escapedUnit, List.cons_append, List.append_assoc] using hunit

/-- The ways to write a character. -/
inductive Escape (c : Char) : List Char → Prop
  | letter {l : Char} : escapedLetter? l = some c → Escape c ['\\', l]
  | plain : c ≠ '"' → c ≠ '\\' → 0x20 ≤ c.toNat → Escape c [c]
  | unit : c.toNat < 0x10000 → Escape c (escapedUnit c.toNat)
  | half {n : Nat} : Text.half? c = some n → Escape c (escapedUnit n)
  | pair : 0x10000 ≤ c.toNat → Escape c (escapedUnit (0xD800 + (c.toNat - 0x10000) / 0x400) ++
      escapedUnit (0xDC00 + (c.toNat - 0x10000) % 0x400))

/-- Each character is written in one of these ways. -/
theorem escape_escapedChar (c : Char) : Escape c (escapedChar c) := by
  by_cases hquote : c = '"'
  · subst hquote
    exact .letter rfl
  by_cases hslash : c = '\\'
  · subst hslash
    exact .letter rfl
  rw [escapedChar, if_neg hquote, if_neg hslash]
  split
  next hn => exact .letter (congrArg some hn.symm)
  split
  next hr => exact .letter (congrArg some hr.symm)
  split
  next ht => exact .letter (congrArg some ht.symm)
  split
  next hf => exact .letter (congrArg some hf.symm)
  split
  next hb => exact .letter (congrArg some hb.symm)
  split
  next hplain =>
    simp only [Bool.and_eq_true, decide_eq_true_eq] at hplain
    exact .plain hquote hslash hplain.1
  split
  next hfirst => exact .unit hfirst
  next hfirst =>
    split
    next n hhalf => exact .half hhalf
    next => exact .pair (Nat.not_lt.mp hfirst)

/-- **What is written for a character spells it**, unless it stands for the first half of a pair and
the second half follows. -/
theorem Escape.spells {c : Char} {e w s : List Char} (he : Escape c e) (h : Spells w s)
    (hpair : ∀ n, Text.half? c = some n → IsHigh n → ¬ OpensLow w) : Spells (e ++ w) (c :: s) := by
  cases he with
  | letter hl => exact .letter hl h
  | plain hquote hslash hplain => exact .plain hquote hslash hplain h
  | unit hfirst =>
    obtain ⟨hhigh, hlow⟩ := not_half_of_lt hfirst
    have hunit := Spells.unit (codeUnit_hexadecimal hfirst) hhigh hlow h
    rwa [Char.ofNat_toNat] at hunit
  | @half n hhalf =>
    obtain ⟨hn, hc⟩ := half?_eq_some hhalf
    have hunit := spells_escapedUnit h hn (hpair n hhalf)
    rwa [hc] at hunit
  | pair hbeyond =>
    obtain ⟨hhigh, hlow, hc⟩ := pair_spec hbeyond
    have hunit := spells_pair h hhigh hlow
    rwa [hc] at hunit

theorem not_isLow_of_isHigh {n : Nat} (h : IsHigh n) : ¬ IsLow n := fun hlow =>
  absurd (hlow.1.trans h.2) (by norm_num)

/-- A spelling begins with the second half of a pair only for a character that stands for it. -/
theorem Escape.half?_of_opensLow {c : Char} {e w : List Char} (he : Escape c e)
    (h : OpensLow (e ++ w)) : ∃ m, Text.half? c = some m ∧ IsLow m := by
  obtain ⟨u, m, rest, hu, hm, heq⟩ := h
  -- the first escape of the spelling is that of the code unit
  have hunit : ∀ {n : Nat} {cs : List Char}, n < 0x10000 →
      escapedUnit n ++ cs = '\\' :: 'u' :: u ++ rest → n = m := by
    intro n cs hn heq
    simp only [escapedUnit, List.cons_append, List.cons.injEq, true_and] at heq
    exact (codeUnit_hexadecimal hn).unique hu heq
  cases he with
  | letter hl =>
    simp only [List.cons_append, List.cons.injEq, true_and] at heq
    rw [heq.1] at hl
    cases hl
  | plain _ hslash _ => exact absurd (List.cons.inj heq).1 hslash
  | unit hfirst =>
    obtain rfl := hunit hfirst heq
    exact absurd hm (not_half_of_lt hfirst).2
  | @half n hhalf =>
    have hn := isHalf_iff.mp (half?_eq_some hhalf).1
    obtain rfl := hunit (hn.elim IsHigh.lt IsLow.lt) heq
    exact ⟨n, hhalf, hm⟩
  | pair hbeyond =>
    obtain ⟨hhigh, -, -⟩ := pair_spec hbeyond
    rw [List.append_assoc] at heq
    have hsame := hunit hhigh.lt heq
    exact absurd hm (hsame ▸ not_isLow_of_isHigh hhigh)

/-- **What is written for a well-paired text spells it.** -/
theorem spells_flatMap {cs : List Char} (h : WellPaired cs) :
    Spells (cs.flatMap escapedChar) cs := by
  induction cs with
  | nil => exact .nil
  | cons c cs ih =>
    obtain ⟨hfirst, hrest⟩ := List.isChain_cons.mp h
    refine (escape_escapedChar c).spells (ih hrest) fun n hn hhigh hlow => ?_
    cases cs with
    | nil =>
      obtain ⟨u, m, rest, -, -, heq⟩ := hlow
      cases heq
    | cons b cs => exact hfirst b rfl ⟨⟨n, hn, hhigh⟩, (escape_escapedChar b).half?_of_opensLow hlow⟩

theorem toList_writtenText (s : String) :
    (writtenText s).toList = '"' :: s.toList.flatMap escapedChar ++ ['"'] := by
  rw [writtenText, String.toList_ofList]

theorem denotes_writtenText (words : Bool) {s : String} (h : WellPaired s.toList) :
    Denotes words (writtenText s).toList (.text s : Document α) := by
  have htext : Denotes words _ (.text (String.ofList s.toList) : Document α) :=
    .text (spells_flatMap h)
  rwa [String.ofList_toList, ← toList_writtenText] at htext

/-! ## 3. Whole numbers -/

theorem head?_toDigits {n : Nat} (h : 0 < n) : (Nat.toDigits 10 n).head? ≠ some '0' := by
  induction n using Nat.strong_induction_on with
  | _ n ih =>
    by_cases hn : n < 10
    · rw [Nat.toDigits_of_lt_base hn]
      interval_cases n <;> decide
    · rw [Nat.toDigits_of_base_le (by decide) (Nat.not_lt.mp hn),
        List.head?_append_of_ne_nil _ Nat.toDigits_ne_nil]
      exact ih _ (by omega) (by omega)

theorem whole_toDigits (n : Nat) : Whole (Nat.toDigits 10 n) := by
  rcases Nat.eq_zero_or_pos n with rfl | h
  · exact .inl rfl
  · exact .inr ⟨⟨Nat.toDigits_ne_nil, fun c hc =>
      Nat.isDigit_of_mem_toDigits (by decide) (by decide) hc⟩, head?_toDigits h⟩

/-- **What is written for a whole number stands for it.** -/
theorem denotes_toString (words : Bool) (n : Int) :
    Denotes words (toString n).toList (.integer n : Document α) := by
  have hnumber : ∀ (negative : Bool) (m : Nat), Denotes words (signed negative (toString m).toList)
      (.integer (if negative then -(m : Int) else m) : Document α) := by
    intro negative m
    have h : Denotes words (signed negative (Nat.toDigits 10 m)) (_ : Document α) :=
      .number (.integer (whole_toDigits m))
    rwa [Nat.ofDigitChars_ten_toDigits, ← Nat.toList_repr] at h
  cases n with
  | ofNat m => exact hnumber false m
  | negSucc m =>
    have htext : (toString (Int.negSucc m)).toList = signed true (toString (m + 1)).toList :=
      String.toList_append
    rw [htext]
    exact hnumber true (m + 1)

end Document
end Graded
