/-
# What is written is in the grammar

The laid-out form of a document stands for the document again, with the members of each object in
the order of their names (`arranged`, `isWritten_written`).  It does so if the names of each object
differ, if the texts are well paired, and if what is written for the reals stands for them
(`Writable`).

An infinite real is written as a word, and words stand outside of texts.  So the laid-out
form of a document with such a real is not strict JSON (`not_isWritten_of_contains`).
-/
import Graded.Proofs.Writing.Parts

namespace Graded
namespace Document

variable {α : Type} [Scalar α]

/-! ## 1. Order of members -/

mutual

/-- The document with the members of each object in the order of their names. -/
def arranged : Document α → Document α
  | .list xs => .list (arrangedItems xs)
  | .object ms => .object (sorted (arrangedMembers ms))
  | d => d

/-- `arranged` on each item. -/
def arrangedItems : List (Document α) → List (Document α)
  | [] => []
  | x :: xs => arranged x :: arrangedItems xs

/-- `arranged` on each member. -/
def arrangedMembers : List (String × Document α) → List (String × Document α)
  | [] => []
  | (k, x) :: ms => (k, arranged x) :: arrangedMembers ms

end

omit [Scalar α] in
theorem arrangedItems_eq (xs : List (Document α)) : arrangedItems xs = xs.map arranged := by
  induction xs with
  | nil => rfl
  | cons x xs ih => rw [arrangedItems, ih, List.map_cons]

omit [Scalar α] in
theorem arrangedMembers_eq (ms : List (String × Document α)) :
    arrangedMembers ms = ms.map fun m => (m.1, arranged m.2) := by
  induction ms with
  | nil => rfl
  | cons m ms ih => rw [arrangedMembers, ih, List.map_cons]

theorem sorted_perm {β : Type} (ms : List (String × β)) : (sorted ms).Perm ms :=
  List.mergeSort_perm _ _

/-- The order of members does not depend on what is under the names. -/
theorem sorted_map {β γ : Type} (f : β → γ) (ms : List (String × β)) :
    sorted (ms.map fun m => (m.1, f m.2)) = (sorted ms).map fun m => (m.1, f m.2) :=
  (List.map_mergeSort (f := fun m : String × β => (m.1, f m.2)) fun _ _ _ _ => rfl).symm

section

variable [Legible α]

theorem writtenItems_eq (depth : Nat) (xs : List (Document α)) :
    writtenItems depth xs = xs.map (writtenAt depth) := by
  induction xs with
  | nil => rfl
  | cons x xs ih => rw [writtenItems, ih, List.map_cons]

theorem writtenMembers_eq (depth : Nat) (ms : List (String × Document α)) :
    writtenMembers depth ms = ms.map fun m => (m.1, writtenAt depth m.2) := by
  induction ms with
  | nil => rfl
  | cons m ms ih => rw [writtenMembers, ih, List.map_cons]

end

/-! ## 2. Blocks -/

theorem toList_pushn (s : String) (c : Char) (n : Nat) :
    (s.pushn c n).toList = s.toList ++ List.replicate n c := by
  rw [String.pushn_eq_repeat_push]
  induction n with
  | zero => simp [Nat.repeat]
  | succ n ih => rw [Nat.repeat, String.toList_push, ih, List.replicate_succ', List.append_assoc]

theorem gap_line (depth : Nat) : Gap (line depth).toList := by
  rw [line, toList_pushn]
  intro c hc
  rcases List.mem_append.mp hc with hc | hc
  · rw [List.mem_singleton.mp hc]
    rfl
  · rw [List.eq_of_mem_replicate hc]
    rfl

theorem gap_nil : Gap [] := by simp [Gap]

theorem toList_block_nil (depth : Nat) {opening closing : String} {a b : Char}
    (ha : opening.toList = [a]) (hb : closing.toList = [b]) :
    (block depth opening closing []).toList = a :: [] ++ [b] := by
  simp [block, ha, hb]

theorem toList_block (depth : Nat) {opening closing : String} {a b : Char}
    (ha : opening.toList = [a]) (hb : closing.toList = [b]) {parts : List String}
    (h : parts ≠ []) : (block depth opening closing parts).toList =
      a :: ((line (depth + 1)).toList ++
        (',' :: (line (depth + 1)).toList).intercalate (parts.map String.toList) ++
        (line depth).toList) ++ [b] := by
  have hempty : parts.isEmpty = false := by simpa using h
  simp [block, hempty, String.toList_intercalate, ha, hb]

section

variable {β : Type} {words : Bool} {g h : List Char}

/-- Values on lines of their own. -/
theorem denotesItems_intercalate (hg : Gap g) (hh : Gap h) (f : β → List Char)
    (a : β → Document α) {xs : List β} (hne : xs ≠ []) (hxs : ∀ x ∈ xs, Denotes words (f x) (a x)) :
    DenotesItems words (g ++ (',' :: g).intercalate (xs.map f) ++ h) (xs.map a) := by
  induction xs with
  | nil => exact absurd rfl hne
  | cons x xs ih =>
    have hx := hxs x List.mem_cons_self
    cases xs with
    | nil => simpa using DenotesItems.last hg hx hh
    | cons y xs =>
      have hrest := ih (List.cons_ne_nil _ _) fun z hz => hxs z (List.mem_cons_of_mem _ hz)
      have hall := DenotesItems.more hg hx gap_nil hrest
      simpa only [List.map_cons, List.intercalate_cons_cons, List.append_assoc, List.cons_append,
        List.nil_append] using hall

/-- Names and values on lines of their own. -/
theorem denotesMembers_intercalate (hh : Gap h) (n f : β → List Char) (k : β → String)
    (a : β → Document α) {ms : List β} (hne : ms ≠ []) (hn : ∀ m ∈ ms, Named (g ++ n m) (k m))
    (hms : ∀ m ∈ ms, Denotes words (f m) (a m)) :
    DenotesMembers words (g ++ (',' :: g).intercalate (ms.map fun m => n m ++ f m) ++ h)
      (ms.map fun m => (k m, a m)) := by
  induction ms with
  | nil => exact absurd rfl hne
  | cons m ms ih =>
    have hname := hn m List.mem_cons_self
    have hm := hms m List.mem_cons_self
    cases ms with
    | nil => simpa using DenotesMembers.last hname hm hh
    | cons m' ms =>
      have hrest := ih (List.cons_ne_nil _ _) (fun z hz => hn z (List.mem_cons_of_mem _ hz))
        fun z hz => hms z (List.mem_cons_of_mem _ hz)
      have hall := DenotesMembers.more hname hm gap_nil hrest
      simpa only [List.map_cons, List.intercalate_cons_cons, List.append_assoc, List.cons_append,
        List.nil_append] using hall

/-- A name on a line of its own. -/
theorem named_writtenText (hg : Gap g) {k : String} (hk : WellPaired k.toList) :
    Named (g ++ ((writtenText k).toList ++ [':', ' '])) k := by
  have hspace : Gap [' '] := by simp [Gap, isGap]
  have hnamed := Named.intro hg (spells_flatMap hk) gap_nil hspace
  rw [String.ofList_toList] at hnamed
  rw [toList_writtenText]
  simpa only [List.append_assoc, List.cons_append, List.nil_append] using hnamed

end

/-! ## 3. Documents -/

/-- The document can be written so that it is read again: the names of each object differ, the texts
are well paired, and what is written for the reals stands for them. -/
inductive Writable [Legible α] (words : Bool) : Document α → Prop
  | null : Writable words .null
  | bool {b : Bool} : Writable words (.bool b)
  | integer {n : Int} : Writable words (.integer n)
  | real {x : α} : Denotes words (writtenReal x).toList (.real x : Document α) →
      Writable words (.real x)
  | text {s : String} : WellPaired s.toList → Writable words (.text s)
  | list {xs : List (Document α)} : (∀ x ∈ xs, Writable words x) → Writable words (.list xs)
  | object {ms : List (String × Document α)} : (ms.map (·.1)).Nodup →
      (∀ m ∈ ms, WellPaired m.1.toList) → (∀ m ∈ ms, Writable words m.2) →
      Writable words (.object ms)

section

variable [Legible α] {words : Bool}

/-- A written list stands for the list of what its items stand for. -/
theorem denotes_listBlock (depth : Nat) {xs : List (Document α)}
    (h : ∀ x ∈ xs, Denotes words (writtenAt (depth + 1) x).toList (arranged x)) :
    Denotes words (block depth "[" "]" (xs.map (writtenAt (depth + 1)))).toList
      (.list (xs.map arranged)) := by
  by_cases hnil : xs = []
  · subst hnil
    rw [List.map_nil, toList_block_nil depth rfl rfl]
    exact .noItems gap_nil
  · rw [toList_block depth rfl rfl (by simpa using hnil), List.map_map]
    exact .list (denotesItems_intercalate (gap_line _) (gap_line _) _ _ hnil h)

/-- A written object stands for the object of what its members stand for. -/
theorem denotes_objectBlock (depth : Nat) {ms : List (String × Document α)}
    (hnodup : (ms.map (·.1)).Nodup) (hpaired : ∀ m ∈ ms, WellPaired m.1.toList)
    (h : ∀ m ∈ ms, Denotes words (writtenAt (depth + 1) m.2).toList (arranged m.2)) :
    Denotes words (block depth "\x7b" "\x7d" (ms.map fun m =>
      writtenText m.1 ++ ": " ++ writtenAt (depth + 1) m.2)).toList
      (.object (ms.map fun m => (m.1, arranged m.2))) := by
  by_cases hnil : ms = []
  · subst hnil
    rw [List.map_nil, toList_block_nil depth rfl rfl]
    exact .noMembers gap_nil
  · have hparts : ∀ m : String × Document α,
        (writtenText m.1 ++ ": " ++ writtenAt (depth + 1) m.2).toList =
          (writtenText m.1).toList ++ [':', ' '] ++ (writtenAt (depth + 1) m.2).toList := by
      intro m
      rw [String.toList_append, String.toList_append]
      rfl
    have hmembers := denotesMembers_intercalate (gap_line depth) _ _ (·.1) _ hnil
      (fun m hm => named_writtenText (gap_line (depth + 1)) (hpaired m hm)) h
    rw [toList_block depth rfl rfl (by simpa using hnil), List.map_map]
    refine .object ?_ (by rwa [List.map_map])
    simpa only [Function.comp_def, hparts] using hmembers

/-- **The laid-out form of a document stands for it**, at every depth. -/
theorem denotes_writtenAt {d : Document α} (h : Writable words d) (depth : Nat) :
    Denotes words (writtenAt depth d).toList (arranged d) := by
  induction h generalizing depth with
  | null =>
    rw [writtenAt]
    exact .null
  | @bool b =>
    rw [writtenAt]
    cases b with
    | true => exact .true
    | false => exact .false
  | integer =>
    rw [writtenAt]
    exact denotes_toString words _
  | real h =>
    rw [writtenAt]
    exact h
  | text h =>
    rw [writtenAt]
    exact denotes_writtenText words h
  | list _ ih =>
    rw [writtenAt, arranged, arrangedItems_eq, writtenItems_eq]
    exact denotes_listBlock depth fun x hx => ih x hx (depth + 1)
  | @object ms hnodup hpaired _ ih =>
    have hperm := sorted_perm ms
    have hmem : ∀ {m}, m ∈ sorted ms → m ∈ ms := hperm.mem_iff.mp
    rw [writtenAt, arranged, arrangedMembers_eq, writtenMembers_eq, sorted_map, sorted_map,
      List.map_map]
    exact denotes_objectBlock depth ((hperm.map (·.1)).nodup_iff.mpr hnodup)
      (fun m hm => hpaired m (hmem hm)) fun m hm => ih m (hmem hm) (depth + 1)

/-- **A laid-out document is in the grammar.** -/
theorem isWritten_written {d : Document α} (h : Writable words d) :
    IsWritten words (written d) (arranged d) :=
  ⟨[], _, [], gap_nil, denotes_writtenAt h 0, gap_nil, by simp [written]⟩

end

/-! ## 4. Words outside of texts -/

/-- The characters leave a capital I outside of quotes. -/
def LeavesWord (cs : List Char) : Prop := ∃ b, Leaves cs b ∧ 'I' ∈ b

theorem LeavesWord.append_left {cs ds : List Char} (h : LeavesWord ds) {words : Bool}
    (hcs : LeavesSome words cs) : LeavesWord (cs ++ ds) := by
  obtain ⟨b, hb, hmem⟩ := h
  obtain ⟨c, hc, -⟩ := hcs
  exact ⟨c ++ b, hc.append hb, List.mem_append_right _ hmem⟩

theorem LeavesWord.append_right {cs ds : List Char} (h : LeavesWord cs) {words : Bool}
    (hds : LeavesSome words ds) : LeavesWord (cs ++ ds) := by
  obtain ⟨b, hb, hmem⟩ := h
  obtain ⟨c, hc, -⟩ := hds
  exact ⟨b ++ c, hb.append hc, List.mem_append_left _ hmem⟩

theorem leavesSome_intercalate {words : Bool} {sep : List Char} (hsep : LeavesSome words sep)
    {parts : List (List Char)} (h : ∀ p ∈ parts, LeavesSome words p) :
    LeavesSome words (sep.intercalate parts) := by
  induction parts with
  | nil => exact leavesSome_of_bare (by simp)
  | cons p parts ih =>
    have hp := h p List.mem_cons_self
    cases parts with
    | nil => simpa using hp
    | cons q parts =>
      rw [List.intercalate_cons_cons]
      exact (hp.append hsep).append (ih fun r hr => h r (List.mem_cons_of_mem _ hr))

theorem leavesWord_intercalate {words : Bool} {sep : List Char} (hsep : LeavesSome words sep)
    {parts : List (List Char)} (h : ∀ p ∈ parts, LeavesSome words p) {p : List Char}
    (hp : p ∈ parts) (hword : LeavesWord p) : LeavesWord (sep.intercalate parts) := by
  induction parts with
  | nil => cases hp
  | cons q parts ih =>
    have hq := h q List.mem_cons_self
    have hrest : ∀ r ∈ parts, LeavesSome words r := fun r hr => h r (List.mem_cons_of_mem _ hr)
    cases parts with
    | nil =>
      obtain rfl := List.mem_singleton.mp hp
      simpa using hword
    | cons r parts =>
      rw [List.intercalate_cons_cons]
      rcases List.mem_cons.mp hp with rfl | hp
      · exact (hword.append_right hsep).append_right (leavesSome_intercalate hsep hrest)
      · exact (ih hrest hp).append_left (hq.append hsep)

/-- The real occurs in the document. -/
inductive Contains (x : α) : Document α → Prop
  | real : Contains x (.real x)
  | list {d : Document α} {xs : List (Document α)} : d ∈ xs → Contains x d → Contains x (.list xs)
  | object {m : String × Document α} {ms : List (String × Document α)} : m ∈ ms →
      Contains x m.2 → Contains x (.object ms)

section

variable [Legible α]

theorem leavesWord_block (depth : Nat) {opening closing : String} {a b : Char}
    (ha : opening.toList = [a]) (hb : closing.toList = [b]) (ha' : isBare a = true)
    (hb' : isBare b = true) {parts : List String} (h : ∀ p ∈ parts, LeavesSome true p.toList)
    {p : String} (hp : p ∈ parts) (hword : LeavesWord p.toList) :
    LeavesWord (block depth opening closing parts).toList := by
  have hline : ∀ n, LeavesSome true (line n).toList := fun n => (gap_line n).leavesSome
  have hsingle : ∀ {c : Char}, isBare c = true → LeavesSome true [c] := fun hc =>
    leavesSome_of_bare (List.forall_mem_singleton.mpr hc)
  have hcomma : LeavesSome true (',' :: (line (depth + 1)).toList) := (hsingle rfl).append (hline _)
  have hparts := leavesWord_intercalate hcomma (List.forall_mem_map.mpr h)
    (List.mem_map_of_mem hp) hword
  rw [toList_block depth ha hb (List.ne_nil_of_mem hp)]
  exact (((hparts.append_left (hline _)).append_right (hline _)).append_left
    (hsingle ha')).append_right (hsingle hb')

theorem leavesSome_name {k : String} (hk : WellPaired k.toList) :
    LeavesSome true (writtenText k ++ ": ").toList := by
  have hnamed : LeavesSome true _ := (named_writtenText gap_nil hk).leavesSome
  rw [List.nil_append] at hnamed
  rw [String.toList_append]
  exact hnamed

/-- An infinite real is written as a word. -/
theorem leavesWord_writtenAt {d : Document α} {x : α} (h : Contains x d) (hd : Writable true d)
    (hx : Scalar.isInfinite x = true) (hx' : Scalar.undefined x = false) (depth : Nat) :
    LeavesWord (writtenAt depth d).toList := by
  induction h generalizing depth with
  | real =>
    rw [writtenAt, writtenReal, hx', hx, if_neg Bool.false_ne_true, if_pos rfl]
    split
    · exact ⟨_, leaves_self (by decide), by decide⟩
    · exact ⟨_, leaves_self (by decide), by decide⟩
  | @list d xs hmem _ ih =>
    cases hd with
    | list hxs =>
      rw [writtenAt, writtenItems_eq]
      refine leavesWord_block depth rfl rfl rfl rfl ?_ (List.mem_map_of_mem hmem)
        (ih (hxs d hmem) _)
      refine List.forall_mem_map.mpr fun y hy => ?_
      exact (denotes_writtenAt (hxs y hy) _).leavesSome
  | @object m ms hmem _ ih =>
    cases hd with
    | object _ hpaired hms =>
      have hmem' : ∀ {m}, m ∈ sorted ms ↔ m ∈ ms := (sorted_perm ms).mem_iff
      rw [writtenAt, writtenMembers_eq, sorted_map, List.map_map]
      refine leavesWord_block depth rfl rfl rfl rfl (List.forall_mem_map.mpr fun y hy => ?_)
        (List.mem_map_of_mem (hmem'.mpr hmem)) ?_
      · have hy := hmem'.mp hy
        have hvalue := (denotes_writtenAt (hms y hy) (depth + 1)).leavesSome
        change LeavesSome true (writtenText y.1 ++ ": " ++ writtenAt (depth + 1) y.2).toList
        rw [String.toList_append]
        exact (leavesSome_name (hpaired y hy)).append hvalue
      · have hvalue := ih (hms m hmem) (depth + 1)
        change LeavesWord (writtenText m.1 ++ ": " ++ writtenAt (depth + 1) m.2).toList
        rw [String.toList_append]
        exact hvalue.append_left (leavesSome_name (hpaired m hmem))

/-- **A document with an infinite real is not laid out as strict JSON.** -/
theorem not_isWritten_of_contains {d e : Document α} {x : α} (h : Contains x d)
    (hd : Writable true d) (hx : Scalar.isInfinite x = true) (hx' : Scalar.undefined x = false) :
    ¬ IsWritten false (written d) e := by
  intro hstrict
  obtain ⟨b, hb, hmem⟩ := leavesWord_writtenAt h hd hx hx' 0
  have hnone := hstrict.wordless.1
  rw [written, ← List.append_nil (writtenAt 0 d).toList, hb] at hnone
  exact hnone (List.mem_append_left _ hmem)

end

end Document
end Graded
