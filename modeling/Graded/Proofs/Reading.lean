/-
# Reading what the grammar derives

The reader reads every text of the grammar as the document that the text stands for
(`read_of_isWritten`), as long as the document keeps to the limits of the reader: it is not nested
too deep, and its whole numbers are not too long (`Fits`).

A value is read in front of anything that does not continue a number.  Whether the steps suffice
that the reader is given is an induction on their number: a value takes fewer than it has characters,
and the three readers that call each other are taken together (`reads`).
-/
import Graded.Proofs.Reading.Parts

namespace Graded
namespace Document

variable {α : Type} [Scalar α]

/-! ## 1. Limits -/

/-- The document keeps to the limits of the reader: so many levels of lists and objects at most, and
whole numbers that are not too long. -/
inductive Fits : Nat → Document α → Prop
  | null {n : Nat} : Fits n .null
  | bool {n : Nat} {b : Bool} : Fits n (.bool b)
  | integer {n : Nat} {i : Int} : i.natAbs < 10 ^ mostDigits → Fits n (.integer i)
  | real {n : Nat} {x : α} : Fits n (.real x)
  | text {n : Nat} {s : String} : Fits n (.text s)
  | list {n : Nat} {xs : List (Document α)} : (∀ x ∈ xs, Fits n x) → Fits (n + 1) (.list xs)
  | object {n : Nat} {ms : List (String × Document α)} : (∀ m ∈ ms, Fits n m.2) →
      Fits (n + 1) (.object ms)

theorem readItems_skipGaps (bound levels : Nat) (cs : List Char) :
    readItems (α := α) bound levels (skipGaps cs) = readItems bound levels cs := by
  cases bound with
  | zero => rfl
  | succ bound => simp only [readItems, skipGaps_skipGaps]

theorem readMembers_skipGaps (bound levels : Nat) (cs : List Char) :
    readMembers (α := α) bound levels (skipGaps cs) = readMembers bound levels cs := by
  cases bound with
  | zero => rfl
  | succ bound => simp only [readMembers, skipGaps_skipGaps]

/-! ## 2. The first character -/

/-- The first character of a value is neither a blank nor a closing bracket. -/
def opensValue (c : Char) : Bool := !isGap c && c != ']'

theorem Denotes.exists_cons {words : Bool} {cs : List Char} {d : Document α}
    (h : Denotes words cs d) : ∃ c cs', cs = c :: cs' ∧ opensValue c = .true := by
  cases h with
  | @number negative cs d h =>
    cases negative with
    | true => exact ⟨_, _, rfl, rfl⟩
    | false =>
      obtain ⟨c, cs', rfl, hc⟩ := h.exists_cons
      refine ⟨c, cs', rfl, ?_⟩
      have hne := fun {d : Char} => ne_of_isDigit (d := d) hc
      simp [opensValue, isGap, hne]
  | infinite _ =>
    unfold signed
    split <;> exact ⟨_, _, rfl, rfl⟩
  | _ => exact ⟨_, _, rfl, rfl⟩

theorem readValue_number {c : Char} (hc : c.isDigit = true ∨ c = '-') (bound levels : Nat)
    (cs : List Char) : readValue (α := α) (bound + 1) levels (c :: cs) = readNumber (c :: cs) := by
  have hne : ∀ {d : Char}, d.isDigit = false → d ≠ '-' → c ≠ d := by
    rintro d hd hminus rfl
    rcases hc with hc | rfl
    · simp [hc] at hd
    · exact hminus rfl
  rw [readValue]
  all_goals
    rintro _ heq
    exact absurd (List.cons.inj heq).1 (hne rfl (by decide))

omit [Scalar α] in
theorem readWord_append (word : String) (value : Document α) (rest : List Char) :
    readWord word value (word.toList ++ rest) = .ok (value, rest) := by
  have hafter : ∀ cs, afterWord? cs (cs ++ rest) = some rest := by
    intro cs
    induction cs with
    | nil => rfl
    | cons c cs ih => rw [List.cons_append, afterWord?, if_pos rfl, ih]
  rw [readWord, hafter]
  rfl

/-! ## 3. The readers of values -/

/-- With so many steps and levels left, the reader reads every value of the grammar, in front of
anything that does not continue a number. -/
def ReadsValues (α : Type) [Scalar α] (words : Bool) (bound : Nat) : Prop :=
  ∀ {levels : Nat} {cs : List Char} {d : Document α}, Denotes words cs d → Fits levels d →
    cs.length < bound → ∀ rest, Ends rest → readValue bound levels (cs ++ rest) = .ok (d, rest)

/-- It reads all items up to the closing bracket. -/
def ReadsItems (α : Type) [Scalar α] (words : Bool) (bound : Nat) : Prop :=
  ∀ {levels : Nat} {cs : List Char} {xs : List (Document α)}, DenotesItems words cs xs →
    (∀ x ∈ xs, Fits levels x) → cs.length + 1 < bound → ∀ rest,
    readItems bound levels (cs ++ ']' :: rest) = .ok (xs, rest)

/-- It reads all members up to the closing brace. -/
def ReadsMembers (α : Type) [Scalar α] (words : Bool) (bound : Nat) : Prop :=
  ∀ {levels : Nat} {cs : List Char} {ms : List (String × Document α)}, DenotesMembers words cs ms →
    (∀ m ∈ ms, Fits levels m.2) → cs.length + 1 < bound → ∀ rest,
    readMembers bound levels (cs ++ '}' :: rest) = .ok (ms, rest)

section

variable {words : Bool} {bound : Nat}

theorem Denotes.avoids_isGap {cs rest : List Char} {d : Document α} (h : Denotes words cs d) :
    Avoids isGap (cs ++ rest) := by
  obtain ⟨c, cs, rfl, hc⟩ := h.exists_cons
  refine avoids_cons ?_
  simp only [opensValue, Bool.and_eq_true, Bool.not_eq_true'] at hc
  exact hc.1

/-- A value between blanks is read up to the blanks after it. -/
theorem ReadsValues.between (hv : ReadsValues α words bound) {levels : Nat} {g cs h : List Char}
    {x : Document α} (hg : Gap g) (hx : Denotes words cs x) (hh : Gap h) (hfits : Fits levels x)
    (hbound : cs.length < bound) {c : Char} (hc : isNumberChar c = false) (rest : List Char) :
    readValue bound levels (skipGaps (g ++ (cs ++ (h ++ c :: rest)))) =
      .ok (x, h ++ c :: rest) := by
  rw [skipGaps_append hg hx.avoids_isGap]
  exact hv hx hfits hbound _ (hh.ends_append (avoids_cons hc))

theorem readsItems_succ (hv : ReadsValues α words bound) (hi : ReadsItems α words bound) :
    ReadsItems α words (bound + 1) := by
  intro levels cs xs h hfits hbound rest
  cases h with
  | last hg hx hh =>
    have hread := hv.between hg hx hh (hfits _ (by simp)) (by simp at hbound; omega)
      (c := ']') rfl rest
    have hskip : skipGaps _ = ']' :: rest := skipGaps_append hh (avoids_cons rfl)
    simp only [List.append_assoc, readItems, hread, hskip, bind, Except.bind, pure, Except.pure]
  | @more g cs h cs' x xs hg hx hh hxs =>
    have hread := hv.between hg hx hh (hfits _ (by simp)) (by simp at hbound; omega)
      (c := ',') rfl (cs' ++ ']' :: rest)
    have hskip : skipGaps _ = ',' :: (cs' ++ ']' :: rest) := skipGaps_append hh (avoids_cons rfl)
    have hitems := hi hxs (fun x hx => hfits x (by simp [hx])) (by simp at hbound; omega) rest
    simp only [List.append_assoc, List.cons_append, readItems, hread, hskip, hitems, bind,
      Except.bind, pure, Except.pure]

/-- A name is read up to the blanks before its value. -/
theorem Named.readText {n : List Char} {k : String} (h : Named n k) (rest : List Char) :
    ∃ m i, readText (skipGaps (n ++ rest)) = some (k, m) ∧ skipGaps m = ':' :: (i ++ rest) ∧
      Gap i := by
  obtain @⟨g, w, s, h, i, hg, hs, hh, hi⟩ := h
  refine ⟨h ++ ':' :: (i ++ rest), i, ?_, skipGaps_append hh (avoids_cons rfl), hi⟩
  have htext := hs.readText (h ++ ':' :: (i ++ rest))
  simp only [List.append_assoc, List.cons_append] at htext ⊢
  rw [skipGaps_append hg (avoids_cons rfl), htext]

theorem readsMembers_succ (hv : ReadsValues α words bound) (hm : ReadsMembers α words bound) :
    ReadsMembers α words (bound + 1) := by
  intro levels cs ms h hfits hbound rest
  cases h with
  | @last n cs h k x hn hx hh =>
    obtain ⟨m, i, htext, hcolon, hi⟩ := hn.readText (cs ++ (h ++ '}' :: rest))
    have hread := hv.between hi hx hh (hfits (k, x) (by simp)) (by simp at hbound; omega)
      (c := '}') rfl rest
    have hskip : skipGaps _ = '}' :: rest := skipGaps_append hh (avoids_cons rfl)
    simp only [List.append_assoc, readMembers, htext, ofOption, hcolon, hread, hskip, bind,
      Except.bind, pure, Except.pure]
  | @more n cs h cs' k x ms hn hx hh hms =>
    obtain ⟨m, i, htext, hcolon, hi⟩ := hn.readText (cs ++ (h ++ ',' :: (cs' ++ '}' :: rest)))
    have hread := hv.between hi hx hh (hfits (k, x) (by simp)) (by simp at hbound; omega)
      (c := ',') rfl (cs' ++ '}' :: rest)
    have hskip : skipGaps _ = ',' :: (cs' ++ '}' :: rest) := skipGaps_append hh (avoids_cons rfl)
    have hmembers := hm hms (fun m hm => hfits m (by simp [hm])) (by simp at hbound; omega) rest
    simp only [List.append_assoc, List.cons_append, readMembers, htext, ofOption, hcolon, hread,
      hskip, hmembers, bind, Except.bind, pure, Except.pure]

/-- The first item begins with a value. -/
theorem DenotesItems.exists_skipGaps {cs : List Char} {xs : List (Document α)}
    (h : DenotesItems words cs xs) (rest : List Char) :
    ∃ c cs', skipGaps (cs ++ rest) = c :: cs' ∧ c ≠ ']' := by
  have hvalue : ∀ {g cs t : List Char} {x : Document α}, Gap g → Denotes words cs x →
      ∃ c cs', skipGaps (g ++ (cs ++ t)) = c :: cs' ∧ c ≠ ']' := by
    intro g cs t x hg hx
    rw [skipGaps_append hg hx.avoids_isGap]
    obtain ⟨c, cs, rfl, hc⟩ := hx.exists_cons
    simp only [opensValue, Bool.and_eq_true, bne_iff_ne] at hc
    exact ⟨c, _, rfl, hc.2⟩
  cases h with
  | last hg hx _ => simpa only [List.append_assoc] using hvalue hg hx
  | more hg hx _ _ => simpa only [List.append_assoc] using hvalue hg hx

/-- The first member begins with a quote. -/
theorem DenotesMembers.exists_skipGaps {cs : List Char} {ms : List (String × Document α)}
    (h : DenotesMembers words cs ms) (rest : List Char) :
    ∃ cs', skipGaps (cs ++ rest) = '"' :: cs' := by
  have hname : ∀ {n t : List Char} {k : String}, Named n k →
      ∃ cs', skipGaps (n ++ t) = '"' :: cs' := by
    rintro n t k ⟨hg, -, -, -⟩
    simp only [List.append_assoc, List.cons_append]
    exact ⟨_, skipGaps_append hg (avoids_cons rfl)⟩
  cases h with
  | last hn _ _ => simpa only [List.append_assoc] using hname hn
  | more hn _ _ _ => simpa only [List.append_assoc] using hname hn

/-- A number within the limits is read, with its sign. -/
theorem Number.reads {negative : Bool} {levels : Nat} {cs rest : List Char} {d : Document α}
    (h : Number negative cs d) (hfits : Fits levels d) (hrest : Ends rest) (bound : Nat) :
    readValue (bound + 1) levels (signed negative cs ++ rest) = .ok (d, rest) := by
  have hshort : ∀ n, d = .integer n → n.natAbs < 10 ^ mostDigits := by
    rintro n rfl
    cases hfits with
    | integer hn => exact hn
  have hfirst : ∃ c cs', signed negative cs = c :: cs' ∧ (c.isDigit = true ∨ c = '-') := by
    cases negative with
    | true => exact ⟨_, _, rfl, .inr rfl⟩
    | false =>
      obtain ⟨c, cs', rfl, hc⟩ := h.exists_cons
      exact ⟨c, cs', rfl, .inl hc⟩
  have hread := h.readNumber hrest hshort
  obtain ⟨c, cs', heq, hc⟩ := hfirst
  rw [heq, List.cons_append] at hread ⊢
  rw [readValue_number hc, hread]

/-- A list is read if its items are. -/
theorem ReadsItems.list (hi : ReadsItems α words bound) {levels : Nat} {cs : List Char}
    {xs : List (Document α)} (h : DenotesItems words cs xs) (hfits : ∀ x ∈ xs, Fits levels x)
    (hbound : cs.length + 1 < bound) (rest : List Char) :
    readValue (bound + 1) (levels + 1) ('[' :: (cs ++ ']' :: rest)) = .ok (.list xs, rest) := by
  have hread := hi h hfits hbound rest
  rw [← readItems_skipGaps] at hread
  obtain ⟨c, cs', heq, hc⟩ := h.exists_skipGaps (']' :: rest)
  rw [heq] at hread
  simp only [readValue, heq]
  simp [hc, hread, Except.map]

/-- An object is read if its members are, and if their names differ. -/
theorem ReadsMembers.object (hm : ReadsMembers α words bound) {levels : Nat} {cs : List Char}
    {ms : List (String × Document α)} (h : DenotesMembers words cs ms)
    (hnodup : (ms.map (·.1)).Nodup) (hfits : ∀ m ∈ ms, Fits levels m.2)
    (hbound : cs.length + 1 < bound) (rest : List Char) :
    readValue (bound + 1) (levels + 1) ('{' :: (cs ++ '}' :: rest)) =
      .ok (.object ms, rest) := by
  have hread := hm h hfits hbound rest
  rw [← readMembers_skipGaps] at hread
  obtain ⟨cs', heq⟩ := h.exists_skipGaps ('}' :: rest)
  rw [heq] at hread
  simp only [readValue, heq]
  simp [hread, Except.map, Keyed.ofPairs_of_nodup hnodup]

theorem readsValues_succ (hi : ReadsItems α words bound) (hm : ReadsMembers α words bound) :
    ReadsValues α words (bound + 1) := by
  intro levels cs d h hfits hbound rest hrest
  cases h with
  | null => exact readWord_append "null" _ rest
  | true => exact readWord_append "true" _ rest
  | false => exact readWord_append "false" _ rest
  | undefined _ => exact readWord_append "NaN" _ rest
  | @infinite negative _ =>
    cases negative with
    | true =>
      have hminus := readValue_number (α := α) (.inr rfl) bound levels
        ("Infinity".toList ++ rest)
      exact hminus
    | false => exact readWord_append "Infinity" _ rest
  | number h => exact h.reads hfits hrest bound
  | @text w s h =>
    have hread := h.readText rest
    simp only [List.cons_append, List.append_assoc, List.nil_append] at hread ⊢
    rw [readValue, hread]
    rfl
  | @noItems g hg =>
    cases hfits
    have hskip : skipGaps _ = ']' :: rest := skipGaps_append hg (avoids_cons rfl)
    simp only [List.cons_append, List.append_assoc, List.nil_append, readValue, hskip]
    rfl
  | @list cs xs h =>
    cases hfits with
    | list hfits =>
      simp only [List.cons_append, List.append_assoc, List.nil_append]
      exact hi.list h hfits (by simp at hbound; omega) rest
  | @noMembers g hg =>
    cases hfits
    have hskip : skipGaps _ = '}' :: rest := skipGaps_append hg (avoids_cons rfl)
    simp only [List.cons_append, List.append_assoc, List.nil_append, readValue, hskip]
    rfl
  | @object cs ms h hnodup =>
    cases hfits with
    | object hfits =>
      simp only [List.cons_append, List.append_assoc, List.nil_append]
      exact hm.object h hnodup hfits (by simp at hbound; omega) rest

/-- The reader goes wrong at no number of steps. -/
theorem reads (words : Bool) (bound : Nat) :
    ReadsValues α words bound ∧ ReadsItems α words bound ∧ ReadsMembers α words bound := by
  induction bound with
  | zero =>
    refine ⟨fun _ _ h => absurd h (Nat.not_lt_zero _), fun _ _ h => absurd h (Nat.not_lt_zero _),
      fun _ _ h => absurd h (Nat.not_lt_zero _)⟩
  | succ bound ih =>
    obtain ⟨hv, hi, hm⟩ := ih
    exact ⟨readsValues_succ hi hm, readsItems_succ hv hi, readsMembers_succ hv hm⟩

/-- **What the grammar derives is read**, if it keeps to the limits of the reader. -/
theorem read_of_isWritten {text : String} {d : Document α} (h : IsWritten words text d)
    (hfits : Fits deepest d) : read text = .ok d := by
  obtain ⟨g, cs, h, hg, hcs, hh, heq⟩ := h
  have hlength : cs.length < text.length + 1 := by
    rw [← String.length_toList, heq]
    simp
    omega
  have hends : Ends h := by simpa using hh.ends_append (avoids_nil isNumberChar)
  have hread := (reads words _).1 hcs hfits hlength h hends
  have hskip : skipGaps (g ++ (cs ++ h)) = cs ++ h := skipGaps_append hg hcs.avoids_isGap
  have hempty : skipGaps h = [] := by simpa using skipGaps_append hh (avoids_nil isGap)
  rw [read, heq, List.append_assoc, hskip, hread]
  simp [hempty, bind, Except.bind, pure, Except.pure]

end

end Document
end Graded
