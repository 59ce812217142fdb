/-
# Finding a title among names

The search for a title goes through the names once.  It ends at the first name that touches the
title, which is one that equals it, contains it or is contained in it; while it meets none it keeps
the best match so far.  So there are two cases, and in each of them the outcome can be said without
the search (`find_spec`).

* If some name touches the title, the first one that does is found with similarity 1, whatever was
  kept before it.
* If none does, the search is the one for the best match (`findFrom_eq_verdict`), and what it keeps
  is held against the threshold: the greatest similarity, and the first name that has it
  (`bestMatch_cases`).

So whether a title is found, and with which similarity, does not depend on the order of the names.
Which name is found may.

The two measures do not agree everywhere.  A title without anything but blanks touches every other
one and is similar to none of them, so a name can be found that the title has no similarity to.
That is the only way (`find_similar_iff`), and it does happen (`not_find_similar`).
-/
import Graded.Proofs.Leading
import Graded.Proofs.Matching
import Graded.Proofs.Similarity

namespace Graded

/-! ## 1. The best match -/

section

variable {β : Type}

theorem bestMatch_concat (similarity : β → β → ℝ) (name : β) (l : List β) (c : β) :
    bestMatch similarity name (l ++ [c]) =
      closer similarity name (bestMatch similarity name l) c := by
  rw [bestMatch, List.foldl_append]
  rfl

/-- **The best match** is none, if nothing is similar, or else the first of the most similar. -/
theorem bestMatch_cases (similarity : β → β → ℝ) (name : β) (l : List β) :
    (bestMatch similarity name l = (none, 0) ∧ ∀ c ∈ l, similarity name c ≤ 0) ∨
      ∃ c, bestMatch similarity name l = (some c, similarity name c) ∧ 0 < similarity name c ∧
        Leads (similarity name) l c := by
  -- along the search, so what comes in addition is the last candidate
  induction l using List.reverseRecOn with
  | nil => exact .inl ⟨rfl, fun _ hc => absurd hc List.not_mem_nil⟩
  | append_singleton l c ih =>
    rw [bestMatch_concat]
    rcases ih with ⟨hbest, hle⟩ | ⟨b, hbest, hpos, before, after, rfl, hbefore, hafter⟩
    · rcases lt_or_ge 0 (similarity name c) with hlt | hge
      · refine .inr ⟨c, by rw [hbest, closer, if_pos hlt], hlt, l, [], rfl, fun y hy => ?_, by simp⟩
        exact not_le.mpr ((hle y hy).trans_lt hlt)
      · refine .inl ⟨by rw [hbest, closer, if_neg hge.not_gt], ?_⟩
        simpa [or_imp, forall_and] using ⟨hle, hge⟩
    · rcases lt_or_ge (similarity name b) (similarity name c) with hlt | hge
      · refine .inr ⟨c, by rw [hbest, closer, if_pos hlt], hpos.trans hlt, _, [], rfl, ?_, by simp⟩
        have hle : ∀ y ∈ before ++ b :: after, similarity name y ≤ similarity name b :=
          fun y hy => Leads.le ⟨before, after, rfl, hbefore, hafter⟩ Scalar.ordered_real
            (fun _ _ => trivial) hy
        exact fun y hy => not_le.mpr ((hle y hy).trans_lt hlt)
      · refine .inr ⟨b, by rw [hbest, closer, if_neg hge.not_gt], hpos, before, after ++ [c], ?_,
          hbefore, ?_⟩
        · simp
        · simpa [or_imp, forall_and] using ⟨hafter, hge⟩

end

namespace Title

/-! ## 2. Names that touch a title -/

/-- The similarity of a title and a name. -/
noncomputable def nearness (title name : String) : ℝ := similarity title.toList name.toList

/-- The title and the name are equal in the form in which they are compared, or one of them contains
the other. -/
def Touches (title name : String) : Prop :=
  normal title.toList = normal name.toList ∨ normal name.toList <:+: normal title.toList ∨
    normal title.toList <:+: normal name.toList

instance (title name : String) : Decidable (Touches title name) :=
  inferInstanceAs (Decidable (_ ∨ _ ∨ _))

/-- There is nothing but blanks in the title. -/
def Blank (title : String) : Prop := normal title.toList = []

variable {title name : String} {names names' : List String} {threshold : ℝ}

theorem overlaps_eq_true :
    overlaps (normal title.toList) (normal name.toList) = true ↔ Touches title name := by
  simp [overlaps, Touches, Text.within_iff, or_assoc]

theorem nearness_nonneg (title name : String) : 0 ≤ nearness title name := (likeness_mem _ _).1

/-- A title that is similar to a name at all is blank only if the name is. -/
theorem blank_iff_of_pos (h : 0 < nearness title name) : Blank title ↔ Blank name := by
  by_contra hne
  have hzero : nearness title name = 0 := by
    have hother : normal title.toList ≠ normal name.toList := fun heq => hne (by simp [Blank, heq])
    have hnil : (normal title.toList).isEmpty || (normal name.toList).isEmpty := by
      by_contra hnil
      simp only [Bool.or_eq_true, List.isEmpty_iff, not_or] at hnil
      exact hne (iff_of_false hnil.1 hnil.2)
    rw [nearness, similarity, likeness, if_neg hother, if_pos hnil]
  exact h.ne' hzero

/-- Titles that touch are similar, unless just one of them is blank. -/
theorem Touches.nearness_pos (h : Touches title name) (hb : Blank title ↔ Blank name) :
    0 < nearness title name := by
  by_cases heq : normal title.toList = normal name.toList
  · have hone : nearness title name = 1 := likeness_eq_one_iff.mpr heq
    exact hone ▸ one_pos
  · have hlength : ∀ {s : String}, ¬ Blank s → (0 : ℝ) < (normal s.toList).length := fun hs =>
      Nat.cast_pos.mpr (List.length_pos_iff.mpr hs)
    have htitle : ¬ Blank title := fun ht => heq (ht.trans (hb.mp ht).symm)
    have hname : ¬ Blank name := fun hn => htitle (hb.mpr hn)
    rcases h with h | h | h
    · exact absurd h heq
    · have hratio : nearness title name = _ := (likeness_comm _ _).trans (likeness_of_part h hname)
      exact hratio ▸ div_pos (hlength hname) (hlength htitle)
    · have hratio : nearness title name = _ := likeness_of_part h htitle
      exact hratio ▸ div_pos (hlength htitle) (hlength hname)

/-! ## 3. The search -/

/-- What the best match comes to when it is held against the threshold. -/
noncomputable def verdict (threshold : ℝ) (best : Option String × ℝ) : Match ℝ :=
  ⟨best.1.isSome && threshold ≤ best.2, best.1.filter fun _ => threshold ≤ best.2, best.2⟩

@[simp] theorem similarity_verdict (threshold : ℝ) (best : Option String × ℝ) :
    (verdict threshold best).similarity = best.2 := rfl

/-- One step past a name that does not touch the title.  Both are compared in the form that they
have already. -/
theorem findFrom_cons (h : ¬ Touches title name) (best : Match ℝ) :
    findFrom (normal title.toList) threshold best (name :: names) =
      findFrom (normal title.toList) threshold
        (if best.similarity < nearness title name then
          verdict threshold (some name, nearness title name) else best) names := by
  have hs : similarity (normal title.toList) (normal name.toList) = nearness title name := by
    rw [similarity, normal_normal, normal_normal]
    rfl
  rw [findFrom, if_neg (mt overlaps_eq_true.mp h), hs]
  by_cases hlt : best.similarity < nearness title name
  · simp [hlt, verdict, Option.filter]
  · simp [hlt]

/-- **The search ends at the first name that touches the title.** -/
theorem findFrom_of_touches (best : Match ℝ)
    (h : names.find? (fun n => decide (Touches title n)) = some name) :
    findFrom (normal title.toList) threshold best names = ⟨true, some name, 1⟩ := by
  induction names generalizing best with
  | nil => cases h
  | cons n names ih =>
    rw [List.find?_cons] at h
    by_cases hn : Touches title n
    · rw [decide_eq_true hn] at h
      cases h
      rw [findFrom, if_pos (overlaps_eq_true.mpr hn)]
    · rw [decide_eq_false hn] at h
      rw [findFrom_cons hn]
      exact ih _ h

theorem find_of_touches (threshold : ℝ)
    (h : names.find? (fun n => decide (Touches title n)) = some name) :
    find title names threshold = ⟨true, some name, 1⟩ := findFrom_of_touches _ h

/-- **Where no name touches the title the search is the one for the best match.** -/
theorem findFrom_eq_verdict (h : ∀ n ∈ names, ¬ Touches title n) (best : Option String × ℝ) :
    findFrom (normal title.toList) threshold (verdict threshold best) names =
      verdict threshold (names.foldl (closer nearness title) best) := by
  induction names generalizing best with
  | nil => rfl
  | cons n names ih =>
    rw [findFrom_cons (h n List.mem_cons_self), List.foldl_cons,
      ← ih fun k hk => h k (List.mem_cons_of_mem _ hk), closer]
    exact congrArg (findFrom _ _ · _) (apply_ite (verdict threshold) _ _ _).symm

theorem find_eq_verdict (h : ∀ n ∈ names, ¬ Touches title n) :
    find title names threshold = verdict threshold (bestMatch nearness title names) := by
  have hnothing : verdict threshold (none, 0) = Match.nothing := rfl
  rw [find, ← hnothing, findFrom_eq_verdict h]
  rfl

/-- What is found of a title by its nearest name: the similarity is the greatest, 0 for no names, it
matches if it is positive and reaches the threshold, and the name is then the first that has it. -/
structure Match.IsClosest (m : Match ℝ) (title : String) (names : List String) (threshold : ℝ) :
    Prop where
  upper : ∀ n ∈ names, nearness title n ≤ m.similarity
  attained : names = [] ∧ m.similarity = 0 ∨ ∃ n ∈ names, nearness title n = m.similarity
  matched : m.matched = true ↔ 0 < m.similarity ∧ threshold ≤ m.similarity
  name : m.name = if m.matched then
    names.find? (fun n => decide (nearness title n = m.similarity)) else none

/-- **A title that no name touches** is found by the greatest similarity. -/
theorem find_isClosest (threshold : ℝ) (h : ∀ n ∈ names, ¬ Touches title n) :
    (find title names threshold).IsClosest title names threshold := by
  rw [find_eq_verdict h]
  rcases bestMatch_cases nearness title names with ⟨hbest, hle⟩ | ⟨c, hbest, hpos, hleads⟩
  · rw [hbest]
    refine ⟨by simpa using hle, ?_, by simp [verdict], by simp [verdict]⟩
    rw [similarity_verdict]
    cases names with
    | nil => exact .inl ⟨rfl, rfl⟩
    | cons n names =>
      exact .inr ⟨n, List.mem_cons_self, le_antisymm (hle n List.mem_cons_self)
        (nearness_nonneg title n)⟩
  · have hgreatest : ∀ n ∈ names, nearness title n ≤ nearness title c := fun n hn =>
      hleads.le Scalar.ordered_real (fun _ _ => trivial) hn
    have hfirst : names.find? (fun n => decide (nearness title n = nearness title c)) = some c := by
      obtain ⟨before, after, hnames, hbefore, -⟩ := hleads
      refine List.find?_eq_some_iff_append.mpr ⟨by simp, before, after, hnames, fun n hn => ?_⟩
      have hne : nearness title n ≠ nearness title c := fun heq => hbefore n hn heq.ge
      simpa using hne
    rw [hbest]
    refine ⟨by simpa using hgreatest, .inr ⟨c, hleads.mem, ?_⟩, by simp [verdict, hpos], ?_⟩
    · rw [similarity_verdict]
    · rw [similarity_verdict, hfirst]
      simp [verdict, Option.filter]

/-- Where the similarities are the same, so is the greatest. -/
theorem Match.IsClosest.similarity_perm {m m' : Match ℝ} (h : m.IsClosest title names threshold)
    (h' : m'.IsClosest title names' threshold) (hp : names.Perm names') :
    m'.similarity = m.similarity := by
  rcases h.attained with ⟨rfl, hzero⟩ | ⟨n, hn, heq⟩
  · obtain rfl := hp.nil_eq
    rcases h'.attained with ⟨-, hzero'⟩ | ⟨n, hn, -⟩
    · rw [hzero, hzero']
    · exact absurd hn List.not_mem_nil
  · rcases h'.attained with ⟨rfl, -⟩ | ⟨n', hn', heq'⟩
    · exact absurd (hp.eq_nil ▸ hn) List.not_mem_nil
    · apply le_antisymm
      · exact heq' ▸ h.upper n' (hp.mem_iff.mpr hn')
      · exact heq ▸ h'.upper n (hp.mem_iff.mp hn)

theorem exists_find_of_touches (threshold : ℝ) (h : ∃ n ∈ names, Touches title n) :
    ∃ name, find title names threshold = ⟨true, some name, 1⟩ := by
  obtain ⟨name, hname⟩ := Option.isSome_iff_exists.mp
    (List.find?_isSome (p := fun n => decide (Touches title n)) |>.mpr (by simpa using h))
  exact ⟨name, find_of_touches threshold hname⟩

/-- **What is found.**  The first name that touches the title, or else the first of the most similar
if it is similar enough; and the order of the names matters for the name only. -/
theorem find_spec (title : String) (names : List String) (threshold : ℝ) :
    (match names.find? (fun n => decide (Touches title n)) with
      | some name => find title names threshold = ⟨true, some name, 1⟩
      | none => (find title names threshold).IsClosest title names threshold) ∧
      ∀ names', names.Perm names' →
        (find title names' threshold).matched = (find title names threshold).matched ∧
        (find title names' threshold).similarity = (find title names threshold).similarity := by
  constructor
  · cases hfind : names.find? (fun n => decide (Touches title n)) with
    | some name => exact find_of_touches threshold hfind
    | none => exact find_isClosest threshold (by simpa using hfind)
  · intro names' hp
    by_cases h : ∃ n ∈ names, Touches title n
    · have h' : ∃ n ∈ names', Touches title n := by simpa [hp.mem_iff] using h
      obtain ⟨n, hn⟩ := exists_find_of_touches threshold h
      obtain ⟨n', hn'⟩ := exists_find_of_touches threshold h'
      rw [hn, hn']
      exact ⟨rfl, rfl⟩
    · have hnone : ∀ n ∈ names, ¬ Touches title n := fun n hn ht => h ⟨n, hn, ht⟩
      have hclosest := find_isClosest threshold hnone
      have hclosest' := find_isClosest threshold
        fun n hn => hnone n (hp.mem_iff.mpr hn)
      have hs := hclosest.similarity_perm hclosest' hp
      refine ⟨?_, hs⟩
      rw [Bool.eq_iff_iff, hclosest.matched, hclosest'.matched, hs]

/-- Two names touch the title, and the first of them is found; in the other order it is the other.  A
title that no name touches is found by the nearest. -/
theorem find_spec_zug :
    ["Rigi", "ZUG", "lake"].Perm ["lake", "ZUG", "Rigi"] ∧
      find "Lake Zug" ["Rigi", "ZUG", "lake"] (0.6 : ℝ) = ⟨true, some "ZUG", 1⟩ ∧
      find "Lake Zug" ["lake", "ZUG", "Rigi"] (0.6 : ℝ) = ⟨true, some "lake", 1⟩ ∧
      (find "Lake Zug" ["lake", "ZUG", "Rigi"] (0.6 : ℝ)).similarity =
        (find "Lake Zug" ["Rigi", "ZUG", "lake"] (0.6 : ℝ)).similarity ∧
      (find "Zug" ["Thun", "Zag"] (0.6 : ℝ)).IsClosest "Zug" ["Thun", "Zag"] 0.6 := by
  obtain ⟨hfirst, horder⟩ := find_spec "Lake Zug" ["Rigi", "ZUG", "lake"] 0.6
  have hfind : ["Rigi", "ZUG", "lake"].find?
      (fun n => decide (Touches "Lake Zug" n)) = some "ZUG" := by decide +kernel
  rw [hfind] at hfirst
  have hother := (find_spec "Lake Zug" ["lake", "ZUG", "Rigi"] 0.6).1
  have hfind' : ["lake", "ZUG", "Rigi"].find?
      (fun n => decide (Touches "Lake Zug" n)) = some "lake" := by decide +kernel
  rw [hfind'] at hother
  have hnearest := (find_spec "Zug" ["Thun", "Zag"] 0.6).1
  have hnone : ["Thun", "Zag"].find?
      (fun n => decide (Touches "Zug" n)) = none := by decide +kernel
  rw [hnone] at hnearest
  have hperm : ["Rigi", "ZUG", "lake"].Perm ["lake", "ZUG", "Rigi"] := by decide
  exact ⟨hperm, hfirst, hother, (horder _ hperm).2, hnearest⟩

/-! ## 4. Found and similar -/

/-- **A name that is found is similar to the title**, unless just one of them is blank. -/
theorem find_similar_iff (h : (find title names threshold).name = some name) :
    (find title names threshold).matched = true ∧
      (0 < nearness title name ↔ (Blank title ↔ Blank name)) := by
  cases hfind : names.find? (fun n => decide (Touches title n)) with
  | some n =>
    rw [find_of_touches threshold hfind] at h ⊢
    cases h
    have htouches : Touches title name := by simpa using List.find?_some hfind
    exact ⟨rfl, blank_iff_of_pos, htouches.nearness_pos⟩
  | none =>
    have hclosest : (find title names threshold).IsClosest title names threshold :=
      find_isClosest threshold (by simpa using hfind)
    rw [hclosest.name] at h
    split_ifs at h with hmatched
    have heq : nearness title name = (find title names threshold).similarity := by
      simpa using List.find?_some h
    have hpos : 0 < nearness title name := heq ▸ (hclosest.matched.mp hmatched).1
    exact ⟨hmatched, iff_of_true hpos (blank_iff_of_pos hpos)⟩

/-- A name that is part of the title. -/
theorem find_similar_iff_rigi :
    (find "Mt Rigi" ["Zug", "rigi"] (0.6 : ℝ)).name = some "rigi" ∧
      (find "Mt Rigi" ["Zug", "rigi"] (0.6 : ℝ)).matched = true ∧
      0 < nearness "Mt Rigi" "rigi" := by
  have hfind : ["Zug", "rigi"].find? (fun n => decide (Touches "Mt Rigi" n)) = some "rigi" := by
    decide +kernel
  have hname : (find "Mt Rigi" ["Zug", "rigi"] (0.6 : ℝ)).name = some "rigi" :=
    congrArg Match.name (find_of_touches 0.6 hfind)
  obtain ⟨hmatched, hpos⟩ := find_similar_iff hname
  have htitle : ¬ Blank "Mt Rigi" := by unfold Blank; decide +kernel
  have hother : ¬ Blank "rigi" := by unfold Blank; decide +kernel
  exact ⟨hname, hmatched, hpos.mpr (iff_of_false htitle hother)⟩

/-- **A name without letters is found in every title**, and is similar to none that has letters. -/
theorem not_find_similar :
    ¬ ∀ (title : String) (names : List String) (threshold : ℝ) (name : String),
      (find title names threshold).matched = true →
      (find title names threshold).name = some name → 0 < nearness title name := by
  intro h
  have hfind : [""].find? (fun n => decide (Touches "Bern" n)) = some "" := by decide +kernel
  have hfound := find_of_touches 0.6 hfind
  have hpos : 0 < nearness "Bern" "" :=
    h "Bern" [""] 0.6 "" (congrArg Match.matched hfound) (congrArg Match.name hfound)
  have hblank : Blank "" := by unfold Blank; decide +kernel
  have htitle : ¬ Blank "Bern" := by unfold Blank; decide +kernel
  exact htitle ((blank_iff_of_pos hpos).mpr hblank)

end Title
end Graded
