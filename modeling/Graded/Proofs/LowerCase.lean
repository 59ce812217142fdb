/-
# Lower case, once and for all

Titles are compared in lower case and without the blanks around them, and a title that is in this
form already keeps it (`Title.normal_normal`).

Blanks are no difficulty.  That lower case is final is a fact about the table of letters: what a
letter becomes is never a letter with a lower case of its own (`lowerLetter_of_mem_lowerLetter`).
The table moves letters run by run, so this is looked up run by run.  The letters of a run go to an
interval which they fill at the stride of the run, and every run lies before this interval, after
it, or with its letters between them (`CaseRun.clears`, `runs_clear`).

A sigma is the only letter whose lower case depends on the letters around it.  None is left when a
text is put into lower case, so the letters around do not matter the second time.
-/
import Mathlib
import Graded.Title.Similarity

namespace Graded
namespace Text

/-! ## 1. Runs -/

namespace CaseRun

/-- The code point is a letter of the run. -/
def Holds (run : CaseRun) (n : Nat) : Prop :=
  run.1 ≤ n ∧ n ≤ run.2.1 ∧ (n - run.1) % run.2.2.1 = 0

/-- Where the run moves a code point. -/
def moved (run : CaseRun) (n : Nat) : Nat := ((n : Int) + run.2.2.2).toNat

/-- None of `low`, `low + stride`, … up to `high` is a letter of the run: they lie before it, after
it, or between its letters. -/
def clears (run : CaseRun) (low high stride : Nat) : Bool :=
  high.blt run.1 || run.2.1.blt low ||
    ((low - run.1) % run.2.2.1 != 0 && (low == high || stride % run.2.2.1 == 0))

variable {run : CaseRun} {low high stride : Nat}

theorem not_holds_of_clears (h : run.clears low high stride = true) {k : Nat}
    (hk : low + k * stride ≤ high) : ¬ run.Holds (low + k * stride) := by
  rintro ⟨hfirst, hlast, hmod⟩
  simp only [clears, Nat.blt_eq, Bool.or_eq_true, Bool.and_eq_true, bne_iff_ne, beq_iff_eq] at h
  rcases h with (hbefore | hafter) | ⟨hne, hstep⟩
  · omega
  · omega
  · -- the distance to the first letter of the run is the same for all of them, up to its stride
    have hdvd : run.2.2.1 ∣ k * stride := by
      rcases hstep with heq | hstep
      · have hzero : k * stride = 0 := by omega
        exact hzero ▸ dvd_zero _
      · exact (Nat.dvd_of_mod_eq_zero hstep).mul_left k
    have hle : run.1 ≤ low := by
      by_contra hlt
      rw [Nat.sub_eq_zero_of_le (not_le.mp hlt).le, Nat.zero_mod] at hne
      exact hne rfl
    rw [Nat.sub_add_comm hle] at hmod
    exact hne (Nat.mod_eq_zero_of_dvd
      ((Nat.dvd_add_left hdvd).mp (Nat.dvd_of_mod_eq_zero hmod)))

/-- A letter of the run is some steps on from the first one. -/
theorem Holds.exists_steps {n : Nat} (h : run.Holds n) : ∃ k, n = run.1 + k * run.2.2.1 := by
  obtain ⟨hfirst, -, hmod⟩ := h
  obtain ⟨k, hk⟩ := Nat.dvd_of_mod_eq_zero hmod
  exact ⟨k, by rw [Nat.mul_comm, ← hk]; omega⟩

end CaseRun

variable {runs : List CaseRun} {n : Nat}

theorem ofRuns_eq_self (h : ∀ run ∈ runs, ¬ run.Holds n) : ofRuns runs n = n := by
  unfold ofRuns
  split
  · next heq =>
    have hholds := List.find?_some heq
    simp only [Bool.and_eq_true, decide_eq_true_eq, beq_iff_eq] at hholds
    exact absurd ⟨hholds.1.1, hholds.1.2, hholds.2⟩ (h _ (List.mem_of_find?_eq_some heq))
  · rfl

/-- A code point is moved by a run that it is a letter of, or left where it is. -/
theorem ofRuns_cases (runs : List CaseRun) (n : Nat) :
    ofRuns runs n = n ∨ ∃ run ∈ runs, run.Holds n ∧ ofRuns runs n = run.moved n := by
  unfold ofRuns
  split
  · next heq =>
    have hholds := List.find?_some heq
    simp only [Bool.and_eq_true, decide_eq_true_eq, beq_iff_eq] at hholds
    exact .inr ⟨_, List.mem_of_find?_eq_some heq, ⟨hholds.1.1, hholds.1.2, hholds.2⟩, rfl⟩
  · exact .inl rfl

/-! ## 2. The table -/

/-- The letters with a lower case of their own.  Those listed apart are runs of one letter. -/
def loweredRuns : List CaseRun := (lowerApart.map fun e => (e.1, e.1, 1, 0)) ++ lowerRuns

/-- The letters of a run are moved clear of all runs. -/
theorem runs_clear : (lowerRuns.all fun run => loweredRuns.all fun other =>
    other.clears (run.moved run.1) (run.moved run.2.1) run.2.2.1) = true := by decide +kernel

/-- So are the letters that are listed apart. -/
theorem apart_clear : (lowerApart.all fun e => e.2.all fun n => loweredRuns.all fun other =>
    other.clears n n 1) = true := by decide +kernel

theorem runs_nonneg : ∀ run ∈ lowerRuns, 0 ≤ (run.1 : Int) + run.2.2.2 := by decide +kernel

/-- What is no letter of any run is left as it is. -/
theorem lowerLetter_ofNat (h : ∀ run ∈ loweredRuns, ¬ run.Holds n) :
    lowerLetter (Char.ofNat n) = [Char.ofNat n] := by
  by_cases hv : n.isValidChar
  · have hnat : (Char.ofNat n).toNat = n := by rw [Char.toNat_ofNat, if_pos hv]
    have hnone : lowerApart.lookup n = none := by
      rw [List.lookup_eq_none_iff]
      intro e he
      have hmem : (e.1, e.1, 1, 0) ∈ loweredRuns :=
        List.mem_append_left _ (List.mem_map_of_mem he)
      exact bne_iff_ne.mpr fun heq => h _ hmem ⟨heq.ge, heq.le, Nat.mod_one _⟩
    have hself : ofRuns lowerRuns n = n :=
      ofRuns_eq_self fun run hrun => h run (List.mem_append_right _ hrun)
    rw [lowerLetter, image, hnat, hnone, hself]
  · have hnull : Char.ofNat n = '\x00' := dif_neg hv
    rw [hnull]
    decide +kernel

/-- **What a letter becomes in lower case is left as it is.** -/
theorem lowerLetter_of_mem_lowerLetter {c d : Char} (h : d ∈ lowerLetter c) :
    lowerLetter d = [d] := by
  have hc : lowerLetter c = image lowerApart lowerRuns c := rfl
  rw [hc, image] at h
  cases hl : lowerApart.lookup c.toNat with
  | some letters =>
    rw [hl] at h
    obtain ⟨n, hn, rfl⟩ := List.mem_map.mp h
    obtain ⟨before, after, happart, -⟩ := List.lookup_eq_some_iff.mp hl
    have hmem : (c.toNat, letters) ∈ lowerApart := happart ▸ by simp
    have hclear := List.all_eq_true.mp (List.all_eq_true.mp apart_clear _ hmem) n hn
    refine lowerLetter_ofNat fun other hother => ?_
    have := CaseRun.not_holds_of_clears (List.all_eq_true.mp hclear other hother) (k := 0)
    simpa using this
  | none =>
    rw [hl] at h
    obtain rfl := List.mem_singleton.mp h
    rcases ofRuns_cases lowerRuns c.toNat with heq | ⟨run, hrun, hholds, heq⟩
    · have hself : Char.ofNat c.toNat = c := Char.ofNat_toNat c
      rw [heq, hself, hc, image, hl, heq, hself]
    · rw [heq]
      refine lowerLetter_ofNat fun other hother => ?_
      obtain ⟨k, hk⟩ := hholds.exists_steps
      have hclear := List.all_eq_true.mp (List.all_eq_true.mp runs_clear run hrun) other hother
      have hnonneg := runs_nonneg run hrun
      have hmoved : run.moved c.toNat = run.moved run.1 + k * run.2.2.1 := by
        simp only [CaseRun.moved, hk]
        push_cast
        omega
      rw [hmoved]
      refine CaseRun.not_holds_of_clears hclear ?_
      rw [← hmoved]
      exact Int.toNat_le_toNat (by have := hholds.2.1; omega)

/-! ## 3. Texts -/

/-- No letter of the text has a lower case of its own. -/
def Lowered (text : List Char) : Prop := ∀ c ∈ text, lowerLetter c = [c]

theorem lowered_lowerAfter (before text : List Char) : Lowered (lowerAfter before text) := by
  induction text generalizing before with
  | nil => exact fun _ hc => absurd hc List.not_mem_nil
  | cons a text ih =>
    intro c hc
    rw [lowerAfter] at hc
    rcases List.mem_append.mp hc with hc | hc
    · split_ifs at hc with ha hends
      · obtain rfl := List.mem_singleton.mp hc
        decide +kernel
      · obtain rfl := List.mem_singleton.mp hc
        decide +kernel
      · exact lowerLetter_of_mem_lowerLetter hc
    · exact ih _ c hc

theorem Lowered.lowerAfter_eq {text : List Char} (h : Lowered text) (before : List Char) :
    lowerAfter before text = text := by
  induction text generalizing before with
  | nil => rfl
  | cons a text ih =>
    have ha : lowerLetter a = [a] := h a List.mem_cons_self
    have hsigma : a ≠ 'Σ' := by
      rintro rfl
      exact absurd ha (by decide +kernel)
    rw [lowerAfter, if_neg hsigma, ha, ih fun c hc => h c (List.mem_cons_of_mem _ hc)]
    rfl

theorem mem_of_mem_trim {c : Char} {text : List Char} (h : c ∈ trim text) : c ∈ text := by
  have h' : c ∈ (text.dropWhile isBlank).reverse.dropWhile isBlank := List.mem_reverse.mp h
  have h'' := (List.dropWhile_sublist _).subset h'
  exact (List.dropWhile_sublist _).subset (List.mem_reverse.mp h'')

/-- Trimming leaves no blank at either end. -/
theorem trim_trim (text : List Char) : trim (trim text) = trim text := by
  set rest := text.dropWhile isBlank with hrest
  have htrim : trim text = rest.rdropWhile isBlank := rfl
  have hfront : (rest.rdropWhile isBlank).dropWhile isBlank = rest.rdropWhile isBlank := by
    rw [List.dropWhile_eq_self_iff]
    intro hpos
    have hrestpos : 0 < rest.length := hpos.trans_le (List.rdropWhile_prefix isBlank rest).length_le
    have hself : rest.dropWhile isBlank = rest := List.dropWhile_idempotent isBlank text
    have hget := (List.rdropWhile_prefix isBlank rest).getElem hpos
    rw [hget]
    exact List.dropWhile_eq_self_iff.mp hself hrestpos
  rw [htrim]
  calc trim (rest.rdropWhile isBlank)
      = ((rest.rdropWhile isBlank).dropWhile isBlank).rdropWhile isBlank := rfl
    _ = rest.rdropWhile isBlank := by rw [hfront, List.rdropWhile_idempotent]

end Text

/-! ## 4. Titles -/

/-- **A title in the form in which titles are compared keeps it.** -/
theorem Title.normal_normal (title : List Char) : normal (normal title) = normal title := by
  have hlowered : Text.Lowered (normal title) := fun c hc =>
    Text.lowered_lowerAfter [] title c (Text.mem_of_mem_trim hc)
  calc normal (normal title) = Text.trim (Text.lowerAfter [] (normal title)) := rfl
    _ = Text.trim (Text.trim (Text.lower title)) := by rw [hlowered.lowerAfter_eq]; rfl
    _ = normal title := Text.trim_trim _

end Graded
