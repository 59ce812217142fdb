/-
# The edit distance is the least number of edits

An edit inserts, deletes or substitutes one character at any place of a text, and a script is a list
of edits made one after the other (`Edit.run`).  Nothing orders the places of a script, and a later
edit may undo what an earlier one did.  The edit distance of two texts is the least length of a
script that turns the first into the second (`distance_isLeast`).

Two steps lead from scripts to the table that the distance is read off.

* An alignment (`Aligned`) writes the texts under each other and counts the places at which they
  differ.  Alignments are scripts whose places go up, and every script can be brought into this
  order at no cost: one edit more on one of two aligned texts costs at most one place
  (`Near.of_edit`).
* `gap` is the recursion of the table, on texts that are read backwards.  It takes the diagonal
  without a look at the other entries wherever two characters are the same.  That this is never
  worse is the exchange: a character that one side leaves out can be given up on the other side for
  one place, and that place is saved by matching it (`Aligned.uncons_left`, `Aligned.uncons_right`).
-/
import Mathlib
import Graded.Title.Edit

namespace Graded
namespace Title

variable {γ : Type}

/-! ## 1. Scripts -/

/-- A change of one character at a place of a text. -/
inductive Edit (γ : Type) where
  | insert (place : Nat) (c : γ)
  | delete (place : Nat)
  | substitute (place : Nat) (c : γ)

namespace Edit

/-- The text after an edit, if it has the place.  The place after the last character is one to
insert at. -/
def result? : Edit γ → List γ → Option (List γ)
  | insert i c, s => if i ≤ s.length then some (s.take i ++ c :: s.drop i) else none
  | delete i, s => if i < s.length then some (s.take i ++ s.drop (i + 1)) else none
  | substitute i c, s => if i < s.length then some (s.take i ++ c :: s.drop (i + 1)) else none

/-- The text after edits one after the other. -/
def run (script : List (Edit γ)) (s : List γ) : Option (List γ) :=
  script.foldlM (fun s e => e.result? s) s

/-- The same edit one place later. -/
def later : Edit γ → Edit γ
  | insert i c => insert (i + 1) c
  | delete i => delete (i + 1)
  | substitute i c => substitute (i + 1) c

@[simp] theorem run_nil (s : List γ) : run [] s = some s := rfl

@[simp] theorem run_cons (e : Edit γ) (script : List (Edit γ)) (s : List γ) :
    run (e :: script) s = (e.result? s).bind (run script) := rfl

/-- An edit after the first character leaves it alone. -/
theorem result?_later (e : Edit γ) (a : γ) (s : List γ) :
    e.later.result? (a :: s) = (e.result? s).map (a :: ·) := by
  cases e with
  | insert i c => by_cases h : i ≤ s.length <;> simp [later, result?, h]
  | delete i => by_cases h : i < s.length <;> simp [later, result?, h]
  | substitute i c => by_cases h : i < s.length <;> simp [later, result?, h]

theorem run_later (script : List (Edit γ)) (a : γ) (s : List γ) :
    run (script.map later) (a :: s) = (run script s).map (a :: ·) := by
  induction script generalizing s with
  | nil => rfl
  | cons e script ih =>
    rw [List.map_cons, run_cons, run_cons, result?_later]
    cases e.result? s with
    | none => rfl
    | some s' => exact ih s'

end Edit

/-! ## 2. Alignments -/

/-- The texts can be written under each other so that they differ at `n` places. -/
inductive Aligned : List γ → List γ → Nat → Prop
  | nil : Aligned [] [] 0
  | same (a : γ) {s t n} : Aligned s t n → Aligned (a :: s) (a :: t) n
  | other (a b : γ) {s t n} : Aligned s t n → Aligned (a :: s) (b :: t) (n + 1)
  | left (a : γ) {s t n} : Aligned s t n → Aligned (a :: s) t (n + 1)
  | right (b : γ) {s t n} : Aligned s t n → Aligned s (b :: t) (n + 1)

namespace Aligned

variable {s s' t t' : List γ} {n m : Nat}

theorem refl (s : List γ) : Aligned s s 0 := by
  induction s with
  | nil => exact .nil
  | cons a s ih => exact .same a ih

/-- Every character of a text may stand alone. -/
theorem left_alone (s : List γ) : Aligned s [] s.length := by
  induction s with
  | nil => exact .nil
  | cons a s ih => exact .left a ih

theorem right_alone (t : List γ) : Aligned [] t t.length := by
  induction t with
  | nil => exact .nil
  | cons b t ih => exact .right b ih

/-- The lengths differ by no more than the texts do. -/
theorem length_le (h : Aligned s t n) : s.length ≤ t.length + n ∧ t.length ≤ s.length + n := by
  induction h with
  | nil => simp
  | same a _ ih | other a b _ ih | left a _ ih | right b _ ih =>
    simp only [List.length_cons]
    omega

theorem append (h : Aligned s t n) (h' : Aligned s' t' m) :
    Aligned (s ++ s') (t ++ t') (n + m) := by
  induction h with
  | nil => simpa using h'
  | same a _ ih => exact .same a ih
  | other a b _ ih => exact Nat.succ_add_eq_add_succ _ m ▸ .other a b ih
  | left a _ ih => exact Nat.succ_add_eq_add_succ _ m ▸ .left a ih
  | right b _ ih => exact Nat.succ_add_eq_add_succ _ m ▸ .right b ih

/-- Texts can be read backwards. -/
theorem reverse (h : Aligned s t n) : Aligned s.reverse t.reverse n := by
  induction h with
  | nil => exact .nil
  | same a _ ih => simpa using ih.append (.same a .nil)
  | other a b _ ih => simpa using ih.append (.other a b .nil)
  | left a _ ih => simpa using ih.append (.left a .nil)
  | right b _ ih => simpa using ih.append (.right b .nil)

/-- Texts can be written the other way up. -/
theorem swap (h : Aligned s t n) : Aligned t s n := by
  induction h with
  | nil => exact .nil
  | same a _ ih => exact .same a ih
  | other a b _ ih => exact .other b a ih
  | left a _ ih => exact .right a ih
  | right b _ ih => exact .left b ih

end Aligned

/-! ## 3. Scripts and alignments -/

/-- An alignment of `s'` with any text becomes one of `s` for one place more at most. -/
def Near (s' s : List γ) : Prop := ∀ t n, Aligned s' t n → ∃ m ≤ n + 1, Aligned s t m

namespace Near

variable {s s' : List γ}

/-- What `s` needs for it depends on where the first character of `x :: s'` stands: over its like,
over another or over nothing.  What the text has in front of that is left as it is. -/
theorem of_head {x : γ} (same : ∀ t n, Aligned s' t n → ∃ m ≤ n + 1, Aligned s (x :: t) m)
    (other : ∀ y t n, Aligned s' t n → ∃ m ≤ n + 2, Aligned s (y :: t) m)
    (left : ∀ t n, Aligned s' t n → ∃ m ≤ n + 2, Aligned s t m) : Near (x :: s') s := by
  intro t n h
  generalize hl : x :: s' = l at h
  induction h with
  | nil => cases hl
  | same c h _ =>
    cases hl
    exact same _ _ h
  | other c y h _ =>
    cases hl
    exact other y _ _ h
  | left c h _ =>
    cases hl
    exact left _ _ h
  | right y _ ih =>
    obtain ⟨m, hm, h⟩ := ih hl
    exact ⟨m + 1, by omega, .right y h⟩

theorem of_inserted (a : γ) (s : List γ) : Near (a :: s) s :=
  of_head (fun _ n h => ⟨n + 1, le_rfl, .right a h⟩)
    (fun y _ n h => ⟨n + 1, Nat.le_succ _, .right y h⟩) (fun _ n h => ⟨n, by omega, h⟩)

theorem of_deleted (a : γ) (s : List γ) : Near s (a :: s) := fun _ n h => ⟨n + 1, le_rfl, .left a h⟩

theorem of_substituted (a b : γ) (s : List γ) : Near (b :: s) (a :: s) :=
  of_head (fun _ n h => ⟨n + 1, le_rfl, .other a b h⟩)
    (fun y _ n h => ⟨n + 1, Nat.le_succ _, .other a y h⟩)
    (fun _ n h => ⟨n + 1, Nat.le_succ _, .left a h⟩)

/-- A character in front of both texts takes no part. -/
theorem cons (a : γ) (hs : Near s' s) : Near (a :: s') (a :: s) := by
  apply of_head
  · intro t n h
    obtain ⟨m, hm, h'⟩ := hs t n h
    exact ⟨m, hm, .same a h'⟩
  · intro y t n h
    obtain ⟨m, hm, h'⟩ := hs t n h
    exact ⟨m + 1, by omega, .other a y h'⟩
  · intro t n h
    obtain ⟨m, hm, h'⟩ := hs t n h
    exact ⟨m + 1, by omega, .left a h'⟩

theorem append (p : List γ) (hs : Near s' s) : Near (p ++ s') (p ++ s) := by
  induction p with
  | nil => exact hs
  | cons a p ih => exact ih.cons a

/-- **One edit more costs one place at most**, wherever it is made. -/
theorem of_edit {e : Edit γ} (h : e.result? s = some s') : Near s' s := by
  cases e with
  | insert i c =>
    simp only [Edit.result?, Option.ite_none_right_eq_some, Option.some.injEq] at h
    obtain ⟨-, rfl⟩ := h
    simpa using (of_inserted c (s.drop i)).append (s.take i)
  | delete i =>
    simp only [Edit.result?, Option.ite_none_right_eq_some, Option.some.injEq] at h
    obtain ⟨hi, rfl⟩ := h
    have := (of_deleted s[i] (s.drop (i + 1))).append (s.take i)
    rwa [← List.drop_eq_getElem_cons hi, List.take_append_drop] at this
  | substitute i c =>
    simp only [Edit.result?, Option.ite_none_right_eq_some, Option.some.injEq] at h
    obtain ⟨hi, rfl⟩ := h
    have := (of_substituted s[i] c (s.drop (i + 1))).append (s.take i)
    rwa [← List.drop_eq_getElem_cons hi, List.take_append_drop] at this

end Near

/-- Whoever gives up the first character of the upper text pays one place at most. -/
theorem Aligned.uncons_left {a : γ} {s t : List γ} {n : Nat} (h : Aligned (a :: s) t n) :
    ∃ m ≤ n + 1, Aligned s t m := Near.of_inserted a s t n h

theorem Aligned.uncons_right {b : γ} {s t : List γ} {n : Nat} (h : Aligned s (b :: t) n) :
    ∃ m ≤ n + 1, Aligned s t m := by
  obtain ⟨m, hm, h'⟩ := h.swap.uncons_left
  exact ⟨m, hm, h'.swap⟩

/-- A script aligns the texts at no more places than it has edits. -/
theorem exists_aligned_of_run {script : List (Edit γ)} {s t : List γ}
    (h : Edit.run script s = some t) : ∃ n ≤ script.length, Aligned s t n := by
  induction script generalizing s with
  | nil =>
    cases h
    exact ⟨0, le_rfl, .refl t⟩
  | cons e script ih =>
    obtain ⟨s', hs', h'⟩ := Option.bind_eq_some_iff.mp h
    obtain ⟨n, hn, ha⟩ := ih h'
    obtain ⟨m, hm, ha'⟩ := Near.of_edit hs' t n ha
    exact ⟨m, by simp only [List.length_cons]; omega, ha'⟩

/-- An alignment is a script with an edit for each place at which the texts differ. -/
theorem Aligned.exists_run {s t : List γ} {n : Nat} (h : Aligned s t n) :
    ∃ script, script.length = n ∧ Edit.run script s = some t := by
  induction h with
  | nil => exact ⟨[], rfl, rfl⟩
  | same a _ ih =>
    obtain ⟨script, hlen, hrun⟩ := ih
    exact ⟨script.map .later, by simpa using hlen, by simp [Edit.run_later, hrun]⟩
  | other a b _ ih =>
    obtain ⟨script, hlen, hrun⟩ := ih
    refine ⟨.substitute 0 b :: script.map .later, by simpa using hlen, ?_⟩
    simp [Edit.result?, Edit.run_later, hrun]
  | left a _ ih =>
    obtain ⟨script, hlen, hrun⟩ := ih
    exact ⟨.delete 0 :: script, by simpa using hlen, by simp [Edit.result?, hrun]⟩
  | right b _ ih =>
    obtain ⟨script, hlen, hrun⟩ := ih
    refine ⟨.insert 0 b :: script.map .later, by simpa using hlen, ?_⟩
    simp [Edit.result?, Edit.run_later, hrun]

/-! ## 4. The recursion of the table -/

variable [DecidableEq γ]

/-- The entry of the table for two texts that are read backwards. -/
def gap : List γ → List γ → Nat
  | [], t => t.length
  | a :: s, [] => (a :: s).length
  | a :: s, b :: t => cell a b (gap s t) (gap s (b :: t)) (gap (a :: s) t)
termination_by s t => s.length + t.length

@[simp] theorem gap_nil_left (t : List γ) : gap [] t = t.length := by rw [gap]

@[simp] theorem gap_nil_right (s : List γ) : gap s [] = s.length := by
  cases s <;> rw [gap]

theorem gap_cons_cons (a b : γ) (s t : List γ) :
    gap (a :: s) (b :: t) = cell a b (gap s t) (gap s (b :: t)) (gap (a :: s) t) := by rw [gap]

/-- Some alignment has the places that the table counts. -/
theorem aligned_gap (s t : List γ) : Aligned s t (gap s t) := by
  fun_induction gap s t with
  | case1 t => exact .right_alone t
  | case2 a s => exact .left_alone (a :: s)
  | case3 a s b t diagonal above left =>
    unfold cell
    split_ifs with hab
    · exact hab ▸ .same a diagonal
    · -- the three entries are tried, and the least is one of them
      rcases min_choice (min (gap s (b :: t)) (gap (a :: s) t)) (gap s t) with h | h
      · rcases min_choice (gap s (b :: t)) (gap (a :: s) t) with h' | h'
        · rw [h, h', Nat.add_comm]
          exact .left a above
        · rw [h, h', Nat.add_comm]
          exact .right b left
      · rw [h, Nat.add_comm]
        exact .other a b diagonal

/-- **No alignment has fewer places than the table counts.** -/
theorem gap_le {s t : List γ} {n : Nat} (h : Aligned s t n) : gap s t ≤ n := by
  fun_induction gap s t generalizing n with
  | case1 t => simpa using h.length_le.2
  | case2 a s => simpa using h.length_le.1
  | case3 a s b t diagonal above left =>
    unfold cell
    split_ifs with hab
    · -- the diagonal alone is no worse than the other two, by the exchange
      cases h with
      | same _ h => exact diagonal h
      | other _ _ h => exact (diagonal h).trans (Nat.le_succ _)
      | left _ h =>
        obtain ⟨m, hm, h'⟩ := h.uncons_right
        exact (diagonal h').trans hm
      | right _ h =>
        obtain ⟨m, hm, h'⟩ := h.uncons_left
        exact (diagonal h').trans hm
    · cases h with
      | same _ _ => exact absurd rfl hab
      | other _ _ h =>
        have := diagonal h
        omega
      | left _ h =>
        have := above h
        omega
      | right _ h =>
        have := left h
        omega

/-! ## 5. The table -/

/-- The row of the text `p` from the beginning `r` of the other text on, both read backwards. -/
def row (p : List γ) : List γ → List γ → List Nat
  | r, [] => [gap p r]
  | r, b :: bs => gap p r :: row p (b :: r) bs

theorem row_eq_cons (p r bs : List γ) : row p r bs = gap p r :: (row p r bs).tail := by
  cases bs <;> rfl

/-- The row of the empty text counts the characters of the other. -/
theorem row_nil (r bs : List γ) : row [] r bs = List.range' r.length (bs.length + 1) := by
  induction bs generalizing r with
  | nil => simp [row]
  | cons b bs ih =>
    rw [row, ih, gap_nil_left, List.length_cons, ← List.range'_succ, List.length_cons]

/-- The last entry belongs to the whole of the other text. -/
theorem getLastD_row (p r bs : List γ) (d : Nat) :
    (row p r bs).getLastD d = gap p (bs.reverse ++ r) := by
  induction bs generalizing r d with
  | nil => rfl
  | cons b bs ih =>
    rw [row, List.getLastD_cons, ih, List.reverse_cons, List.append_assoc, List.singleton_append]

/-- The rest of a row, once its first entry is known, is made of the row above. -/
theorem extend_row (a : γ) (p r bs : List γ) :
    extend a (gap (a :: p) r) (row p r bs) bs = (row (a :: p) r bs).tail := by
  induction bs generalizing r with
  | nil => rfl
  | cons b bs ih =>
    rw [row, row_eq_cons p (b :: r), extend, ← row_eq_cons, ← gap_cons_cons, ih, ← row_eq_cons]
    rfl

/-- One character more in front makes the next row. -/
theorem nextRow_row (a : γ) (p t : List γ) : nextRow t (row p [] t) a = row (a :: p) [] t := by
  have hfirst : (row p [] t).headD 0 + 1 = gap (a :: p) [] := by
    rw [row_eq_cons]
    simp
  rw [nextRow, hfirst, extend_row, ← row_eq_cons]

theorem foldl_nextRow (s p t : List γ) :
    s.foldl (nextRow t) (row p [] t) = row (s.reverse ++ p) [] t := by
  induction s generalizing p with
  | nil => rfl
  | cons a s ih =>
    rw [List.foldl_cons, nextRow_row, ih, List.reverse_cons, List.append_assoc,
      List.singleton_append]

/-- The distance is the last entry of the last row. -/
theorem distance_eq_gap (s t : List γ) : distance s t = gap s.reverse t.reverse := by
  have hfirst : firstRow t = row [] [] t := by
    rw [row_nil, firstRow, List.range_eq_range', List.length_nil]
  rw [distance, hfirst, foldl_nextRow, getLastD_row, List.append_nil, List.append_nil]

/-- **The edit distance is the least number of edits**: some script of so many edits turns the first
text into the second, and no shorter one does. -/
theorem distance_isLeast (s t : List γ) :
    IsLeast {n | ∃ script, script.length = n ∧ Edit.run script s = some t} (distance s t) := by
  rw [distance_eq_gap]
  constructor
  · have h := (aligned_gap s.reverse t.reverse).reverse
    rw [List.reverse_reverse, List.reverse_reverse] at h
    exact h.exists_run
  · rintro _ ⟨script, rfl, hrun⟩
    obtain ⟨n, hn, h⟩ := exists_aligned_of_run hrun
    exact (gap_le h.reverse).trans hn

end Title
end Graded
