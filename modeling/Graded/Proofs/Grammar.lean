/-
# The grammar of written documents

What it means that a text is JSON and says a certain thing, without a reader or a writer: `Denotes`
relates the characters of a value to the document they stand for, production by production, and
`IsWritten` puts blanks around a value.

* A number stands for a whole number, or with a point or an exponent for the real that its decimal
  is nearest to; no zero stands in front of other whole digits.
* A text is spelled character by character, with escapes by letters and by code units (`Spells`).
* The names of an object's members differ.

JSON has no words for the reals that are not finite.  The relation has them where `words` says so,
so that `IsWritten false` is strict JSON and `IsWritten true` is JSON with these words.  Which of
the two it is can be seen from what stands outside of texts: strict JSON has no capital I or N there
(`IsWritten.wordless`).
-/
import Mathlib
import Graded.Document.Reader

namespace Graded
namespace Document

variable {α : Type} [Scalar α]

/-! ## 1. Numbers -/

/-- Blanks between the parts of a document. -/
def Gap (cs : List Char) : Prop := ∀ c ∈ cs, isGap c = true

/-- At least one digit. -/
def Digits (ds : List Char) : Prop := ds ≠ [] ∧ ∀ c ∈ ds, c.isDigit = true

/-- Whole digits: a zero, or digits that do not begin with one. -/
def Whole (ds : List Char) : Prop := ds = ['0'] ∨ Digits ds ∧ ds.head? ≠ some '0'

/-- The sign of a number. -/
def signed (negative : Bool) (cs : List Char) : List Char := if negative then '-' :: cs else cs

/-- The part of a number from the point on, with its digits. -/
inductive Fraction : List Char → List Char → Prop
  | none : Fraction [] []
  | some {ds : List Char} : Digits ds → Fraction ('.' :: ds) ds

/-- The part of a number from the mark of an exponent on, with the exponent. -/
inductive Exponent : List Char → Int → Prop
  | none : Exponent [] 0
  | plain {c : Char} {ds : List Char} : c = 'e' ∨ c = 'E' → Digits ds →
      Exponent (c :: ds) (Nat.ofDigitChars 10 ds 0)
  | plus {c : Char} {ds : List Char} : c = 'e' ∨ c = 'E' → Digits ds →
      Exponent (c :: '+' :: ds) (Nat.ofDigitChars 10 ds 0)
  | minus {c : Char} {ds : List Char} : c = 'e' ∨ c = 'E' → Digits ds →
      Exponent (c :: '-' :: ds) (-(Nat.ofDigitChars 10 ds 0 : Nat))

/-- A number without its sign, and its value with the sign. -/
inductive Number (negative : Bool) : List Char → Document α → Prop
  | integer {ds : List Char} : Whole ds → Number negative ds
      (.integer (if negative then -(Nat.ofDigitChars 10 ds 0 : Nat) else Nat.ofDigitChars 10 ds 0))
  | real {ds point fs mark : List Char} {e : Int} : Whole ds → Fraction point fs →
      Exponent mark e → point ++ mark ≠ [] → Number negative (ds ++ point ++ mark)
        (.real (Scalar.ofNumeral
          (.decimal negative (Nat.ofDigitChars 10 (ds ++ fs) 0) (e - fs.length))))

/-! ## 2. Texts -/

/-- Four hexadecimal digits and the code unit that they stand for. -/
inductive CodeUnit : List Char → Nat → Prop
  | intro {a b c d : Char} {i j k l : Nat} : Text.hexDigit? a = some i → Text.hexDigit? b = some j →
      Text.hexDigit? c = some k → Text.hexDigit? d = some l →
      CodeUnit [a, b, c, d] (((i * 16 + j) * 16 + k) * 16 + l)

/-- The code unit is the first half of a pair. -/
def IsHigh (n : Nat) : Prop := 0xD800 ≤ n ∧ n ≤ 0xDBFF

/-- The code unit is the second half of a pair. -/
def IsLow (n : Nat) : Prop := 0xDC00 ≤ n ∧ n ≤ 0xDFFF

/-- The spelling begins with the second half of a pair. -/
def OpensLow (w : List Char) : Prop :=
  ∃ u n rest, CodeUnit u n ∧ IsLow n ∧ w = '\\' :: 'u' :: u ++ rest

/-- A spelling between two quotes, and the characters that it spells.  Half a pair without the other
half is kept as the character that stands for it. -/
inductive Spells : List Char → List Char → Prop
  | nil : Spells [] []
  | plain {c : Char} {w s : List Char} : c ≠ '"' → c ≠ '\\' → 0x20 ≤ c.toNat → Spells w s →
      Spells (c :: w) (c :: s)
  | letter {l c : Char} {w s : List Char} : escapedLetter? l = some c → Spells w s →
      Spells ('\\' :: l :: w) (c :: s)
  | unit {u w s : List Char} {n : Nat} : CodeUnit u n → ¬ IsHigh n → ¬ IsLow n → Spells w s →
      Spells ('\\' :: 'u' :: u ++ w) (Char.ofNat n :: s)
  | pair {u v w s : List Char} {n m : Nat} : CodeUnit u n → CodeUnit v m → IsHigh n → IsLow m →
      Spells w s → Spells ('\\' :: 'u' :: u ++ '\\' :: 'u' :: v ++ w)
        (Char.ofNat (0x10000 + (n - 0xD800) * 0x400 + (m - 0xDC00)) :: s)
  | half {u w s : List Char} {n : Nat} : CodeUnit u n → IsHigh n ∧ ¬ OpensLow w ∨ IsLow n →
      Spells w s → Spells ('\\' :: 'u' :: u ++ w) (Text.ofHalf n :: s)

/-- A name between quotes with the colon after it, and blanks around both. -/
inductive Named : List Char → String → Prop
  | intro {g w s h i : List Char} : Gap g → Spells w s → Gap h → Gap i →
      Named (g ++ '"' :: w ++ '"' :: h ++ ':' :: i) (String.ofList s)

/-! ## 3. Values -/

mutual

/-- The characters of a value and what they stand for. -/
inductive Denotes (words : Bool) : List Char → Document α → Prop
  | null : Denotes words ['n', 'u', 'l', 'l'] .null
  | true : Denotes words ['t', 'r', 'u', 'e'] (.bool true)
  | false : Denotes words ['f', 'a', 'l', 's', 'e'] (.bool false)
  | number {negative : Bool} {cs : List Char} {d : Document α} : Number negative cs d →
      Denotes words (signed negative cs) d
  | undefined : words = .true → Denotes words ['N', 'a', 'N'] (.real Scalar.nothing)
  | infinite {negative : Bool} : words = .true →
      Denotes words (signed negative ['I', 'n', 'f', 'i', 'n', 'i', 't', 'y'])
        (.real (if negative then -Scalar.infinity else Scalar.infinity))
  | text {w s : List Char} : Spells w s →
      Denotes words ('"' :: w ++ ['"']) (.text (String.ofList s))
  | noItems {g : List Char} : Gap g → Denotes words ('[' :: g ++ [']']) (.list [])
  | list {cs : List Char} {xs : List (Document α)} : DenotesItems words cs xs →
      Denotes words ('[' :: cs ++ [']']) (.list xs)
  | noMembers {g : List Char} : Gap g → Denotes words ('{' :: g ++ ['}']) (.object [])
  | object {cs : List Char} {ms : List (String × Document α)} : DenotesMembers words cs ms →
      (ms.map (·.1)).Nodup → Denotes words ('{' :: cs ++ ['}']) (.object ms)

/-- Values with blanks around them and commas between them. -/
inductive DenotesItems (words : Bool) : List Char → List (Document α) → Prop
  | last {g cs h : List Char} {x : Document α} : Gap g → Denotes words cs x → Gap h →
      DenotesItems words (g ++ cs ++ h) [x]
  | more {g cs h rest : List Char} {x : Document α} {xs : List (Document α)} : Gap g →
      Denotes words cs x → Gap h → DenotesItems words rest xs →
      DenotesItems words (g ++ cs ++ h ++ ',' :: rest) (x :: xs)

/-- Values with names in front of them and commas between them. -/
inductive DenotesMembers (words : Bool) : List Char → List (String × Document α) → Prop
  | last {n cs h : List Char} {k : String} {x : Document α} : Named n k → Denotes words cs x →
      Gap h → DenotesMembers words (n ++ cs ++ h) [(k, x)]
  | more {n cs h rest : List Char} {k : String} {x : Document α}
      {ms : List (String × Document α)} : Named n k → Denotes words cs x → Gap h →
      DenotesMembers words rest ms →
      DenotesMembers words (n ++ cs ++ h ++ ',' :: rest) ((k, x) :: ms)

end

/-- A whole text stands for a document: a value with blanks around it.  Without the words for reals
that are not finite this is strict JSON. -/
def IsWritten (words : Bool) (text : String) (d : Document α) : Prop :=
  ∃ g cs h, Gap g ∧ Denotes words cs d ∧ Gap h ∧ text.toList = g ++ cs ++ h

/-! ## 4. What stands outside of texts -/

/-- The characters outside of quotes.  The scan is inside of quotes where `quoted` says so. -/
def outside : (quoted : Bool) → List Char → List Char
  | _, [] => []
  | .false, c :: cs => if c = '"' then outside .true cs else c :: outside .false cs
  | .true, '\\' :: _ :: cs => outside .true cs
  | .true, c :: cs => outside (c != '"') cs

/-- The characters leave those of `b` outside of quotes, and no quote open. -/
def Leaves (cs b : List Char) : Prop := ∀ rest, outside false (cs ++ rest) = b ++ outside false rest

theorem Leaves.append {cs ds b c : List Char} (hcs : Leaves cs b) (hds : Leaves ds c) :
    Leaves (cs ++ ds) (b ++ c) := by
  intro rest
  rw [List.append_assoc, hcs, hds, List.append_assoc]

/-- What has no quotes is outside altogether. -/
theorem leaves_self {cs : List Char} (h : '"' ∉ cs) : Leaves cs cs := by
  intro rest
  induction cs with
  | nil => rfl
  | cons c cs ih =>
    rw [List.mem_cons, not_or] at h
    rw [List.cons_append, outside, if_neg (Ne.symm h.1), ih h.2, List.cons_append]

/-- Inside of quotes nothing is left but what comes after them. -/
theorem outside_plain {c : Char} (cs : List Char) (hq : c ≠ '"') (hb : c ≠ '\\') :
    outside true (c :: cs) = outside true cs := by
  have hne : (c != '"') = true := by simpa using hq
  rw [outside, hne]
  rintro _ _ rfl _
  exact hb rfl

theorem outside_escaped (c : Char) (cs : List Char) :
    outside true ('\\' :: c :: cs) = outside true cs := rfl

theorem hexDigit?_eq_none {c : Char} (h : c = '"' ∨ c = '\\') : Text.hexDigit? c = none := by
  rcases h with rfl | rfl <;> decide

theorem CodeUnit.outside {u : List Char} {n : Nat} (h : CodeUnit u n) (cs : List Char) :
    outside true (u ++ cs) = outside true cs := by
  have hplain : ∀ {c : Char} {i : Nat} (cs : List Char), Text.hexDigit? c = some i →
      Document.outside true (c :: cs) = Document.outside true cs := by
    intro c i cs hc
    refine outside_plain cs ?_ ?_
    · rintro rfl
      rw [hexDigit?_eq_none (.inl rfl)] at hc
      cases hc
    · rintro rfl
      rw [hexDigit?_eq_none (.inr rfl)] at hc
      cases hc
  obtain ⟨ha, hb, hc, hd⟩ := h
  simp only [List.cons_append, List.nil_append, hplain _ ha, hplain _ hb, hplain _ hc, hplain _ hd]

/-- A text leaves nothing. -/
theorem Spells.outside {w s : List Char} (h : Spells w s) (rest : List Char) :
    outside true (w ++ '"' :: rest) = outside false rest := by
  induction h with
  | nil => rfl
  | plain hq hb _ _ ih => rw [List.cons_append, outside_plain _ hq hb, ih]
  | letter _ _ ih => rw [List.cons_append, List.cons_append, outside_escaped, ih]
  | unit hu _ _ _ ih =>
    simp only [List.cons_append, List.append_assoc, outside_escaped, hu.outside, ih]
  | pair hu hv _ _ _ ih =>
    simp only [List.cons_append, List.append_assoc, outside_escaped, hu.outside, hv.outside, ih]
  | half hu _ _ ih =>
    simp only [List.cons_append, List.append_assoc, outside_escaped, hu.outside, ih]

theorem Spells.leaves {w s : List Char} (h : Spells w s) : Leaves ('"' :: w ++ ['"']) [] := by
  intro rest
  rw [List.append_assoc, List.cons_append, List.singleton_append]
  exact h.outside rest

/-- The characters of a number. -/
def isNumberChar (c : Char) : Bool :=
  c.isDigit || c == '-' || c == '+' || c == '.' || c == 'e' || c == 'E'

theorem Digits.isNumberChar {ds : List Char} (h : Digits ds) : ∀ c ∈ ds, isNumberChar c = true := by
  intro c hc
  simp [Document.isNumberChar, h.2 c hc]

theorem Whole.isNumberChar {ds : List Char} (h : Whole ds) : ∀ c ∈ ds, isNumberChar c = true := by
  rcases h with rfl | ⟨h, -⟩
  · exact List.forall_mem_singleton.mpr rfl
  · exact h.isNumberChar

theorem Fraction.isNumberChar {cs ds : List Char} (h : Fraction cs ds) :
    ∀ c ∈ cs, isNumberChar c = true := by
  cases h with
  | none => simp
  | some h => exact List.forall_mem_cons.mpr ⟨rfl, h.isNumberChar⟩

theorem Exponent.isNumberChar {cs : List Char} {e : Int} (h : Exponent cs e) :
    ∀ c ∈ cs, isNumberChar c = true := by
  have hmark : ∀ {c : Char}, c = 'e' ∨ c = 'E' → Document.isNumberChar c = true := by
    rintro c (rfl | rfl) <;> rfl
  cases h with
  | none => simp
  | plain hc h => exact List.forall_mem_cons.mpr ⟨hmark hc, h.isNumberChar⟩
  | plus hc h =>
    exact List.forall_mem_cons.mpr ⟨hmark hc, List.forall_mem_cons.mpr ⟨rfl, h.isNumberChar⟩⟩
  | minus hc h =>
    exact List.forall_mem_cons.mpr ⟨hmark hc, List.forall_mem_cons.mpr ⟨rfl, h.isNumberChar⟩⟩

theorem Number.isNumberChar {negative : Bool} {cs : List Char} {d : Document α}
    (h : Number negative cs d) : ∀ c ∈ signed negative cs, isNumberChar c = true := by
  have hcs : ∀ c ∈ cs, Document.isNumberChar c = true := by
    cases h with
    | integer h => exact h.isNumberChar
    | real hw hf he _ =>
      intro c hc
      rcases List.mem_append.mp hc with hc | hc
      · rcases List.mem_append.mp hc with hc | hc
        · exact hw.isNumberChar c hc
        · exact hf.isNumberChar c hc
      · exact he.isNumberChar c hc
  cases negative with
  | false => exact hcs
  | true => exact List.forall_mem_cons.mpr ⟨rfl, hcs⟩

/-- No capital I or N. -/
def Wordless (b : List Char) : Prop := 'I' ∉ b ∧ 'N' ∉ b

theorem Wordless.append {b c : List Char} (hb : Wordless b) (hc : Wordless c) :
    Wordless (b ++ c) := by
  simp only [Wordless, List.mem_append, not_or]
  exact ⟨⟨hb.1, hc.1⟩, hb.2, hc.2⟩

/-- The characters leave something outside of quotes, which has no word in it unless words are
allowed. -/
def LeavesSome (words : Bool) (cs : List Char) : Prop :=
  ∃ b, Leaves cs b ∧ (words = false → Wordless b)

/-- Neither a quote nor a letter that only words have. -/
def isBare (c : Char) : Bool := c != '"' && c != 'I' && c != 'N'

theorem isBare_of_isGap {c : Char} (h : isGap c = true) : isBare c = true := by
  simp only [isGap, Bool.or_eq_true, beq_iff_eq] at h
  rcases h with ((rfl | rfl) | rfl) | rfl <;> decide

theorem isBare_of_isNumberChar {c : Char} (h : isNumberChar c = true) : isBare c = true := by
  simp only [isBare, Bool.and_eq_true, bne_iff_ne]
  refine ⟨⟨?_, ?_⟩, ?_⟩ <;> (rintro rfl; exact absurd h (by decide))

section

variable {words : Bool}

theorem LeavesSome.append {cs ds : List Char} (hcs : LeavesSome words cs)
    (hds : LeavesSome words ds) : LeavesSome words (cs ++ ds) := by
  obtain ⟨b, hb, hbw⟩ := hcs
  obtain ⟨c, hc, hcw⟩ := hds
  exact ⟨b ++ c, hb.append hc, fun hw => (hbw hw).append (hcw hw)⟩

theorem leavesSome_of_bare {cs : List Char} (h : ∀ c ∈ cs, isBare c = true) :
    LeavesSome words cs := by
  have hne : ∀ {c : Char}, isBare c = false → c ∉ cs := fun hc hmem => by simp [h _ hmem] at hc
  exact ⟨cs, leaves_self (hne rfl), fun _ => ⟨hne rfl, hne rfl⟩⟩

theorem Gap.leavesSome {g : List Char} (h : Gap g) : LeavesSome words g :=
  leavesSome_of_bare fun c hc => isBare_of_isGap (h c hc)

theorem Spells.leavesSome {w s : List Char} (h : Spells w s) :
    LeavesSome words ('"' :: w ++ ['"']) :=
  ⟨[], h.leaves, fun _ => by simp [Wordless]⟩

/-- Parts with a character between them. -/
theorem LeavesSome.cons {cs ds : List Char} (hcs : LeavesSome words cs) {c : Char}
    (hc : isBare c = true) (hds : LeavesSome words ds) : LeavesSome words (cs ++ c :: ds) :=
  hcs.append ((leavesSome_of_bare (List.forall_mem_singleton.mpr hc)).append hds)

theorem LeavesSome.enclosed {cs : List Char} (h : LeavesSome words cs) {a b : Char}
    (ha : isBare a = true) (hb : isBare b = true) : LeavesSome words (a :: cs ++ [b]) :=
  have hnil : LeavesSome words [] := leavesSome_of_bare (by simp)
  (hnil.cons ha h).cons hb hnil

theorem Named.leavesSome {n : List Char} {k : String} (h : Named n k) : LeavesSome words n := by
  obtain ⟨hg, hs, hh, hi⟩ := h
  have hname : LeavesSome words _ := (hg.leavesSome.append hs.leavesSome).append hh.leavesSome
  have hcolon : isBare ':' = true := rfl
  simpa using hname.cons hcolon hi.leavesSome

mutual

/-- **Every value leaves something outside of quotes**, in strict JSON without words. -/
theorem Denotes.leavesSome {cs : List Char} {d : Document α} :
    Denotes words cs d → LeavesSome words cs
  | .null | .true | .false => leavesSome_of_bare (List.all_eq_true.mp rfl)
  | .number h => leavesSome_of_bare fun c hc => isBare_of_isNumberChar (h.isNumberChar c hc)
  | .undefined hw => ⟨_, leaves_self (by decide), fun hf => absurd (hw.symm.trans hf) (by decide)⟩
  | .infinite hw =>
    ⟨_, leaves_self (by unfold signed; split <;> decide),
      fun hf => absurd (hw.symm.trans hf) (by decide)⟩
  | .text h => h.leavesSome
  | .noItems h => h.leavesSome.enclosed rfl rfl
  | .list h => h.leavesSome.enclosed rfl rfl
  | .noMembers h => h.leavesSome.enclosed rfl rfl
  | .object h _ => h.leavesSome.enclosed rfl rfl

theorem DenotesItems.leavesSome {cs : List Char} {xs : List (Document α)} :
    DenotesItems words cs xs → LeavesSome words cs
  | .last hg hx hh => (hg.leavesSome.append hx.leavesSome).append hh.leavesSome
  | .more hg hx hh hxs =>
    ((hg.leavesSome.append hx.leavesSome).append hh.leavesSome).cons rfl hxs.leavesSome

theorem DenotesMembers.leavesSome {cs : List Char} {ms : List (String × Document α)} :
    DenotesMembers words cs ms → LeavesSome words cs
  | .last hk hx hh => (hk.leavesSome.append hx.leavesSome).append hh.leavesSome
  | .more hk hx hh hms =>
    ((hk.leavesSome.append hx.leavesSome).append hh.leavesSome).cons rfl hms.leavesSome

end

end

/-- **Strict JSON has no words outside of texts.** -/
theorem IsWritten.wordless {text : String} {d : Document α} (h : IsWritten false text d) :
    Wordless (outside false text.toList) := by
  obtain ⟨g, cs, h, hg, hcs, hh, heq⟩ := h
  obtain ⟨b, hb, hw⟩ := (hg.leavesSome.append hcs.leavesSome).append hh.leavesSome
  rw [heq, ← List.append_nil (g ++ cs ++ h), hb]
  simpa [outside] using hw rfl

end Document
end Graded
