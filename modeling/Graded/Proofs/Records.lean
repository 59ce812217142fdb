/-
# Records that are read again

The record of a report is written without undefined numbers, and what is written can be read again:
as the record itself, with null for every undefined number and its members in order
(`RunRecord.read_written_finish`).  Models that are texts all keep their figures.  Numbers come
before them, so where the name of a number is a text that is a model too, the text keeps the name.

Infinite numbers are not replaced, and a word stands for them.  JSON has no such word: the text is
strict JSON exactly if no figure is infinite, and a latency may be
(`Doubles.not_strict_unanswered`).
-/
import Graded.Proofs.Failure
import Graded.Proofs.Models
import Graded.Proofs.Settling
import Graded.Proofs.Writing.Reals

namespace Graded

/-! ## 1. Entries written one after the other -/

namespace Keyed

variable {β : Type}

theorem ofPairs_concat (pairs : List (String × β)) (p : String × β) :
    ofPairs (pairs ++ [p]) = put p.1 p.2 (ofPairs pairs) := by
  rw [ofPairs, List.foldl_append]
  rfl

theorem mem_put {key : String} {value : β} {entries : Keyed β} {e : String × β}
    (h : e ∈ put key value entries) : e = (key, value) ∨ e ∈ entries := by
  induction entries with
  | nil => exact .inl (List.mem_singleton.mp h)
  | cons e' rest ih =>
    obtain ⟨k, v⟩ := e'
    rw [put] at h
    split at h
    next hk =>
      subst hk
      exact (List.mem_cons.mp h).imp id (List.mem_cons_of_mem _)
    next =>
      rcases List.mem_cons.mp h with rfl | h
      · exact .inr List.mem_cons_self
      · exact (ih h).imp id (List.mem_cons_of_mem _)

theorem nodup_keys_put {key : String} (value : β) {entries : Keyed β} (h : entries.keys.Nodup) :
    (put key value entries).keys.Nodup := by
  by_cases hmem : key ∈ entries.keys
  · rwa [keys_put_of_mem value hmem]
  · rw [put_of_notMem value hmem, keys, List.map_append]
    exact h.append (List.nodup_singleton _) (by simpa [keys] using hmem)

/-- Entries come from the pairs. -/
theorem mem_of_mem_ofPairs {pairs : List (String × β)} : ∀ e ∈ ofPairs pairs, e ∈ pairs := by
  induction pairs using List.reverseRecOn with
  | nil => exact fun e he => he
  | append_singleton pairs p ih =>
    intro e he
    rw [ofPairs_concat] at he
    rcases mem_put he with rfl | he
    · exact List.mem_append_right _ List.mem_cons_self
    · exact List.mem_append_left _ (ih e he)

theorem nodup_keys_ofPairs (pairs : List (String × β)) : (ofPairs pairs).keys.Nodup := by
  induction pairs using List.reverseRecOn with
  | nil => exact List.nodup_nil
  | append_singleton pairs p ih =>
    rw [ofPairs_concat]
    exact nodup_keys_put _ ih

/-- **The last value of a name is the one that is kept.** -/
theorem lookup_ofPairs (pairs : List (String × β)) (key : String) :
    (ofPairs pairs).lookup key = pairs.reverse.lookup key := by
  induction pairs using List.reverseRecOn with
  | nil => rfl
  | append_singleton pairs p ih =>
    obtain ⟨k, v⟩ := p
    rw [ofPairs_concat, List.reverse_append, List.reverse_singleton, List.singleton_append,
      List.lookup_cons]
    by_cases hk : key = k
    · subst hk
      simp
    · rw [lookup_put_of_ne v _ hk, ih, beq_eq_false_iff_ne.mpr hk]

end Keyed

namespace Document

/-! ## 2. Texts of the first plane -/

/-- Characters of the first plane are no halves of pairs. -/
theorem wellPaired_of_lt {cs : List Char} (h : ∀ c ∈ cs, c.toNat < 0x10000) : WellPaired cs := by
  refine (List.pairwise_of_forall_mem_list fun a ha b _ hpair => ?_).isChain
  obtain ⟨⟨n, hn, -⟩, -⟩ := hpair
  rw [Text.half?_of_lt (h a ha)] at hn
  cases hn

theorem wellPaired_of_all {s : String} (h : s.toList.all fun c => c.toNat < 0x10000) :
    WellPaired s.toList :=
  wellPaired_of_lt fun c hc => of_decide_eq_true (List.all_eq_true.mp h c hc)

theorem lt_of_isNumberChar {c : Char} (h : isNumberChar c = true) : c.toNat < 0x10000 := by
  simp only [isNumberChar, Char.isDigit, Bool.or_eq_true, Bool.and_eq_true, decide_eq_true_eq,
    beq_iff_eq] at h
  rcases h with ((((⟨-, h⟩ | rfl) | rfl) | rfl) | rfl) | rfl
  · have hle : c.toNat ≤ 57 := h
    omega
  all_goals decide

section

variable {α : Type} [Scalar α]

theorem Number.wellPaired {negative : Bool} {cs : List Char} {d : Document α}
    (h : Number negative cs d) : WellPaired (signed negative cs) :=
  wellPaired_of_lt fun c hc => lt_of_isNumberChar (h.isNumberChar c hc)

end

theorem wellPaired_toString (n : Int) : WellPaired (toString n).toList := by
  have h := denotes_toString (α := Float) false n
  generalize (toString n).toList = cs at h
  cases h with
  | number h => exact h.wellPaired

theorem wellPaired_shortest (x : Float) : WellPaired (Legible.shortest x).toList := by
  cases hx : Decimal.Datum.ofFloat x with
  | finite b =>
    have h := denotes_shortest false hx
    rw [shortest_of_finite hx]
    generalize (Decimal.shortest Legible.form b).toList = cs at h
    cases h with
    | number h => exact h.wellPaired
    | undefined hw => cases hw
    | infinite hw => cases hw
  | infinite negative =>
    obtain rfl := Decimal.eq_of_infinite hx
    cases negative with
    | false => exact wellPaired_of_all (by decide +kernel)
    | true => exact wellPaired_of_all (by decide +kernel)
  | undefined =>
    obtain rfl := Decimal.eq_of_undefined hx
    exact wellPaired_of_all (by decide +kernel)

/-- The name of a model is well paired, unless it is a text that is not. -/
theorem wellPaired_plain {m : Document Float} {b : Bool} (h : namesModel m = .ok b)
    (htext : ∀ s, m = .text s → WellPaired s.toList) : WellPaired m.plain.toList := by
  cases m with
  | null => exact wellPaired_of_all (by decide +kernel)
  | bool b =>
    cases b with
    | false => exact wellPaired_of_all (by decide +kernel)
    | true => exact wellPaired_of_all (by decide +kernel)
  | integer n => exact wellPaired_toString n
  | real x => exact wellPaired_shortest x
  | text s => exact htext s rfl
  | list => cases h
  | object => cases h

/-! ## 3. Texts of documents -/

/-- What a text keeps of a document. -/
structure Keeps (text : String) (d : Document Float) : Prop where
  /-- it is read as the document, with null for undefined numbers -/
  reads : ∃ e, Document.read text = .ok e ∧ Settled d e
  /-- it is strict JSON exactly if no number in the document is infinite -/
  strict_iff : (∃ e : Document Float, IsWritten false text e) ↔
    ∀ x, Contains x d → Scalar.isInfinite x = false

theorem writable_real (x : Float) : Writable true (.real x) := .real (denotes_writtenReal x)

/-- Without infinite numbers no word is needed once the undefined ones are replaced. -/
theorem Writable.strict {d : Document Float} (h : Writable true d)
    (hd : ∀ x, Contains x d → Scalar.isInfinite x = false) :
    Writable false (RunRecord.settle d) := by
  induction h with
  | null => exact .null
  | bool => exact .bool
  | integer => exact .integer
  | text hs => exact .text hs
  | @real x =>
    rw [RunRecord.settle]
    split
    next => exact .null
    next hx =>
      obtain ⟨b, hb⟩ := Decimal.exists_finite (Bool.eq_false_of_not_eq_true hx) (hd x .real)
      have hdenotes := denotes_shortest false hb
      rw [← writtenReal_of_finite hb] at hdenotes
      exact .real hdenotes
  | list _ ih =>
    rw [RunRecord.settle, settleItems_eq]
    exact .list (List.forall_mem_map.mpr fun y hy => ih y hy fun x hx => hd x (.list hy hx))
  | object hnodup hpaired _ ih =>
    rw [RunRecord.settle, settleMembers_eq]
    refine .object ?_ (List.forall_mem_map.mpr hpaired)
      (List.forall_mem_map.mpr fun m hm => ih m hm fun x hx => hd x (.object hm hx))
    rwa [List.map_map]

/-- **A document can be read again**, as it is without its undefined numbers. -/
theorem keeps_written {d : Document Float} (h : Writable true d) (hfits : Fits deepest d) :
    Keeps (RunRecord.settle d).written d := by
  refine ⟨⟨_, ?_, settled_arranged h⟩, fun ⟨e, he⟩ x hx => ?_, fun hd => ?_⟩
  · exact read_of_isWritten (isWritten_written h.settle) hfits.settle.arranged
  · by_contra hne
    have hinfinite : Scalar.isInfinite x = true := eq_true_of_ne_false hne
    have hdefined := Decimal.undefined_of_isInfinite hinfinite
    exact not_isWritten_of_contains (hx.settle hdefined) h.settle hinfinite hdefined he
  · exact ⟨_, isWritten_written (h.strict hd)⟩

/- A text that is not well paired is not kept: its halves are read as the character they make. -/
example : (read? (writtenText (String.ofList [Text.ofHalf 0xD83D, Text.ofHalf 0xDE00]))).any
    (same (.text (String.ofList [Char.ofNat 0x1F600])) : Document Float → Bool) := by
  decide +kernel

end Document

namespace RunRecord

open Document

variable {α : Type} [Scalar α]

/-! ## 4. Records of reports -/

/-- The texts that a record takes over are well paired: the names of models, where the cases came
from, the version of the code and the time. -/
structure Paired (cases : List (Document α)) (casesPath commit : Option String)
    (created : String) : Prop where
  models : ∀ c ∈ cases, ∀ s, c.member? "model" = some (.text s) → WellPaired s.toList
  casesPath : ∀ s ∈ casesPath, WellPaired s.toList
  commit : ∀ s ∈ commit, WellPaired s.toList
  created : WellPaired created.toList

/-- A text, or null where there is none. -/
def textOrNull : Option String → Document α
  | some s => .text s
  | none => .null

theorem withCommit_ofReport [Legible α] (r : Report α) (casesPath commit : Option String)
    (created : String) : withCommit commit (ofReport r casesPath created) =
      ofReport r casesPath created ++ [(commitKey, textOrNull commit)] := by
  have hkeys : (ofReport r casesPath created).keys = ["created_utc", "cases_path", "n_cases",
    "n_unmeasurable", "averages", "llm_minus_fuzzy"] := rfl
  have hnew : commitKey ∉ (ofReport r casesPath created).keys := by
    rw [hkeys]
    decide
  have hnone : (ofReport r casesPath created).lookup commitKey = none := rfl
  unfold withCommit
  rw [hnone, Option.getD_none, holds, if_neg Bool.false_ne_true, Keyed.put_of_notMem _ hnew]
  cases commit with
  | none => rfl
  | some => rfl

/-- Different names in characters of the first plane. -/
def areNames (names : List String) : Bool :=
  decide names.Nodup && names.all fun k => k.toList.all fun c => c.toNat < 0x10000

theorem writable_object [Legible α] {words : Bool} {ms : Keyed (Document α)}
    (h : areNames ms.keys = true) (hms : ∀ m ∈ ms, Writable words m.2) :
    Writable words (.object ms) := by
  simp only [areNames, Bool.and_eq_true, decide_eq_true_eq, List.all_eq_true] at h
  refine .object h.1 (fun m hm => wellPaired_of_all ?_) hms
  exact List.all_eq_true.mpr fun c hc => decide_eq_true (h.2 m.1 (List.mem_map_of_mem hm) c hc)

theorem writable_figures (f : Figures Float) : Writable true (figures f) := by
  have hnames : areNames Figures.names = true := by decide +kernel
  refine writable_object hnames fun m hm => ?_
  obtain ⟨p, -, rfl⟩ := List.mem_map.mp hm
  exact writable_real _

theorem fits_figures (levels : Nat) (f : Figures α) : Fits (levels + 1) (figures f) := by
  refine .object fun m hm => ?_
  obtain ⟨p, -, rfl⟩ := List.mem_map.mp hm
  exact .real

/-- The averages under the names of the models. -/
def namedAverages [Legible α] (r : Report α) : Keyed (Document α) :=
  Keyed.ofPairs (r.averages.map fun (m, f) => (m.plain, figures f))

theorem mem_namedAverages [Legible α] {r : Report α} {m : String × Document α}
    (h : m ∈ namedAverages r) : ∃ a ∈ r.averages, m = (a.1.plain, figures a.2) := by
  obtain ⟨a, ha, heq⟩ := List.mem_map.mp (Keyed.mem_of_mem_ofPairs m h)
  exact ⟨a, ha, heq.symm⟩

/-- **Models that are texts keep their figures**, since texts come last and differ. -/
theorem lookup_namedAverages [Legible α] {r : Report α} (h : TextsLast (r.averages.map (·.1)))
    {s : String} {f : Figures α} (hmem : (.text s, f) ∈ r.averages) :
    (namedAverages r).lookup s = some (figures f) := by
  obtain ⟨before, after, heq⟩ := List.append_of_mem hmem
  rw [heq, List.map_append, List.map_cons, TextsLast] at h
  obtain ⟨hafter, -⟩ := List.pairwise_cons.mp (List.pairwise_append.mp h).2.1
  have hnone : (after.map fun (m, f) => (m.plain, figures f)).reverse.lookup s = none := by
    refine List.lookup_eq_none_iff.mpr fun p hp => ?_
    obtain ⟨a, ha, rfl⟩ := List.mem_map.mp (List.mem_reverse.mp hp)
    obtain ⟨t, ht, hst⟩ := hafter a.1 (List.mem_map_of_mem ha) s rfl
    simpa [ht, plain] using hst
  rw [namedAverages, Keyed.lookup_ofPairs, heq, List.map_append, List.map_cons, List.reverse_append,
    List.reverse_cons, List.append_assoc, List.lookup_append, hnone, Option.none_or]
  simp [plain]

variable {r : Report Float} {cases : List (Document Float)} {casesPath commit : Option String}
  {created : String}

theorem writable_namedAverages (h : r.Lists cases) (hp : Paired cases casesPath commit created) :
    Writable true (.object (namedAverages r)) := by
  refine .object (Keyed.nodup_keys_ofPairs _) (fun m hm => ?_) fun m hm => ?_
  · obtain ⟨a, ha, rfl⟩ := mem_namedAverages hm
    obtain ⟨b, hb⟩ := h.names a ha
    refine wellPaired_plain hb fun s hs => ?_
    obtain ⟨c, hc, hmodel⟩ := h.traced a ha s hs
    cases hmember : c.member? "model" with
    | none =>
      rw [hmember] at hmodel
      cases hmodel
      exact wellPaired_of_all (by decide +kernel)
    | some d =>
      rw [hmember] at hmodel
      exact hp.models c hc s (hmember.trans (congrArg some hmodel))
  · obtain ⟨a, -, rfl⟩ := mem_namedAverages hm
    exact writable_figures a.2

theorem writable_textOrNull {o : Option String} (h : ∀ s ∈ o, WellPaired s.toList) :
    Writable true (textOrNull o : Document Float) := by
  cases o with
  | none => exact .null
  | some s => exact .text (h s rfl)

/-- The members of a record. -/
theorem forall_mem_withCommit {p : Document Float → Prop} (hcreated : p (.text created))
    (hpath : p (textOrNull casesPath)) (hcases : p (.integer r.records.length))
    (hunmeasurable : p (.integer (unmeasurable r.records)))
    (haverages : p (.object (namedAverages r)))
    (hdifference : ∀ f, p (figures f)) (hnull : p .null) (hcommit : p (textOrNull commit)) :
    ∀ m ∈ withCommit commit (ofReport r casesPath created), p m.2 := by
  rw [withCommit_ofReport]
  intro m hm
  simp only [ofReport, List.cons_append, List.nil_append, List.mem_cons, List.not_mem_nil,
    or_false] at hm
  rcases hm with rfl | rfl | rfl | rfl | rfl | rfl | rfl
  · exact hcreated
  · cases casesPath with
    | none => exact hpath
    | some => exact hpath
  · exact hcases
  · exact hunmeasurable
  · exact haverages
  · cases r.difference with
    | none => exact hnull
    | some f => exact hdifference f
  · exact hcommit

theorem areNames_withCommit :
    areNames (Keyed.keys (withCommit commit (ofReport r casesPath created))) = true := by
  have hkeys : Keyed.keys (ofReport r casesPath created ++ [(commitKey, textOrNull commit)]) =
    ["created_utc", "cases_path", "n_cases", "n_unmeasurable", "averages", "llm_minus_fuzzy",
      "code_commit"] := rfl
  rw [withCommit_ofReport, hkeys]
  decide +kernel

theorem writable_record (h : r.Lists cases) (hp : Paired cases casesPath commit created) :
    Writable true (.object (withCommit commit (ofReport r casesPath created))) :=
  writable_object areNames_withCommit <| forall_mem_withCommit (.text hp.created)
    (writable_textOrNull hp.casesPath) .integer .integer (writable_namedAverages h hp)
    writable_figures .null (writable_textOrNull hp.commit)

theorem fits_textOrNull (levels : Nat) (o : Option String) :
    Fits levels (textOrNull o : Document Float) := by
  cases o with
  | none => exact .null
  | some => exact .text

/-- A record is three levels deep. -/
theorem fits_record (levels : Nat) (h : r.records.length < 10 ^ mostDigits) :
    Fits (levels + 3) (.object (withCommit commit (ofReport r casesPath created))) := by
  have hunmeasurable : unmeasurable r.records < 10 ^ mostDigits :=
    lt_of_le_of_lt List.countP_le_length h
  have haverages : Fits (levels + 2) (.object (namedAverages r)) := by
    refine .object fun m hm => ?_
    obtain ⟨a, -, rfl⟩ := mem_namedAverages hm
    exact fits_figures levels a.2
  exact .object <| forall_mem_withCommit .text (fits_textOrNull _ _) (.integer h)
    (.integer hunmeasurable) haverages (fits_figures (levels + 1)) .null (fits_textOrNull _ _)

/-- **The record of a report can be read again.**  Whatever the cases are, the text keeps the record
and the record keeps the averages of every model that is a text. -/
theorem read_written_finish {n : Noted (Report Float)} (h : report cases = .ok n)
    (hcount : cases.length < 10 ^ mostDigits) (hp : Paired cases casesPath commit created) :
    Keeps (finish commit (ofReport n.value casesPath created)).written
      (.object (withCommit commit (ofReport n.value casesPath created))) ∧
    ∃ averages : Keyed (Document Float),
      (withCommit commit (ofReport n.value casesPath created)).lookup "averages" =
        some (.object averages) ∧
      ∀ s f, (.text s, f) ∈ n.value.averages → averages.lookup s = some (figures f) := by
  have hlists := report_lists h
  have hlength : n.value.records.length < 10 ^ mostDigits := by rwa [hlists.length]
  refine ⟨keeps_written (writable_record hlists hp) (fits_record 985 hlength), ?_⟩
  refine ⟨namedAverages n.value, ?_, fun s f => lookup_namedAverages hlists.textsLast⟩
  rw [withCommit_ofReport]
  rfl

/-- The record has every average latency of a model that is a text. -/
theorem contains_latency {x : Float} {s : String} {f : Figures Float} (h : r.Lists cases)
    (hmem : (.text s, f) ∈ r.averages) (hx : f.latency = some x) :
    Contains x (.object (withCommit commit (ofReport r casesPath created))) := by
  have hfigures : Contains x (figures f) := by
    refine .object (m := ("latency_ms", figure f.latency)) List.mem_cons_self ?_
    rw [hx]
    exact .real
  have haverages : (s, figures f) ∈ namedAverages r :=
    (Keyed.lookup_eq_some_iff (Keyed.nodup_keys_ofPairs _)).mp
      (lookup_namedAverages h.textsLast hmem)
  refine .object (m := ("averages", .object (namedAverages r))) ?_ (.object haverages hfigures)
  rw [withCommit_ofReport]
  simp [ofReport, namedAverages]

end RunRecord

namespace Doubles

open Document RunRecord

/-! ## 5. Infinite latencies -/

/-- A case on which a model has never answered. -/
def unansweredCase (model : String) : Document Float :=
  .object [("model", .text model), ("latency_ms", .text "inf")]

def unanswered : List (Document Float) := [unansweredCase "fuzzy", unansweredCase "llm"]

/-- A record for each of the two models, the first with an infinite latency. -/
def areUnanswered : List (Record Float) → Bool
  | [r, s] => r.model.same (.text "fuzzy") && s.model.same (.text "llm") &&
    (averageOf [r.figures.latency]).any Scalar.isInfinite
  | _ => false

theorem passes_unanswered : passes (fun evaluated =>
    passes areUnanswered (aligned (Noted.all evaluated).value)) (unanswered.mapM evaluate) := by
  decide +kernel

theorem eq_text_of_same {d : Document Float} {s : String} (h : d.same (.text s) = true) :
    d = .text s := by
  cases d with
  | text t =>
    simp only [Document.same, beq_iff_eq] at h
    rw [h]
  | _ => simp [Document.same] at h

theorem models_pair {r s : Record Float} (hr : r.model = .text "fuzzy")
    (hs : s.model = .text "llm") : models [r, s] = .ok [.text "fuzzy", .text "llm"] := by
  have hnamed : [r, s].filterM (fun r => namesModel r.model) =
      (.ok [r, s] : Except (Fault Float) _) := by
    simp only [List.filterM, List.filterAuxM, hr, hs, namesModel]
    rfl
  have hdistinct : distinctModels [] ([r, s].map (·.model)) = [.text "fuzzy", .text "llm"] := by
    simp only [List.map_cons, List.map_nil, hr, hs]
    rfl
  have hsorted : ([.text "fuzzy", .text "llm"] : List (Document Float)).mergeSort modelBefore =
      [.text "fuzzy", .text "llm"] := by
    refine List.mergeSort_of_pairwise (List.pairwise_pair.mpr ?_)
    decide +kernel
  unfold models
  rw [hnamed]
  simp only [bind, Except.bind]
  rw [hdistinct, hsorted]
  rfl

/-- There is a report on the two cases, and a figure in its record is infinite. -/
theorem exists_report_unanswered : ∃ n, report unanswered = .ok n ∧
    ∃ x : Float, Scalar.isInfinite x = true ∧ ∀ casesPath commit created,
      Contains x (.object (withCommit commit (ofReport n.value casesPath created))) := by
  obtain ⟨evaluated, hevaluated, htest⟩ := exists_of_passes passes_unanswered
  obtain ⟨records, hrecords, htest⟩ := exists_of_passes htest
  unfold areUnanswered at htest
  split at htest
  next r s =>
    simp only [Bool.and_eq_true] at htest
    obtain ⟨⟨hr, hs⟩, hlatency⟩ := htest
    have hr := eq_text_of_same hr
    have hs := eq_text_of_same hs
    obtain ⟨x, hx, hinfinite⟩ := (Option.any_eq_true _ _).mp hlatency
    obtain ⟨n, hn, haverages⟩ := report_of_models hevaluated hrecords (List.cons_ne_nil _ _)
      (models_pair hr hs)
    have hfuzzy : [r, s].filter (fun q => q.model.same (.text "fuzzy")) = [r] := by
      simp [hr, hs, Document.same]
    refine ⟨n, hn, x, hinfinite, fun casesPath commit created => ?_⟩
    refine contains_latency (report_lists hn) (s := "fuzzy") (f := average [r]) ?_ hx
    rw [haverages, List.map_cons, hfuzzy]
    exact List.mem_cons_self
  next => cases htest

theorem paired_unanswered :
    Paired unanswered (some "cases.json") (some "0a1b2c") "2024-03-09T07:05:00Z" := by
  have hliteral : ∀ {t : String}, (t.toList.all fun c => c.toNat < 0x10000) →
      ∀ s ∈ some t, WellPaired s.toList := by
    intro t ht s hs
    cases hs
    exact wellPaired_of_all ht
  refine ⟨fun c hc s hs => ?_, hliteral (by decide +kernel), hliteral (by decide +kernel),
    wellPaired_of_all (by decide +kernel)⟩
  simp only [unanswered, List.mem_cons, List.not_mem_nil, or_false] at hc
  rcases hc with rfl | rfl
  · cases hs
    exact wellPaired_of_all (by decide +kernel)
  · cases hs
    exact wellPaired_of_all (by decide +kernel)

theorem length_unanswered : unanswered.length < 10 ^ mostDigits :=
  lt_of_lt_of_le (by decide : 2 < 10 ^ 1) (Nat.pow_le_pow_right (by decide) (by decide))

theorem read_written_finish_unanswered : ∃ n : Noted (Report Float),
    report unanswered = .ok n ∧ unanswered.length < 10 ^ mostDigits ∧
    Paired unanswered (some "cases.json") (some "0a1b2c") "2024-03-09T07:05:00Z" ∧
    Keeps (finish (some "0a1b2c")
        (ofReport n.value (some "cases.json") "2024-03-09T07:05:00Z")).written
      (.object (withCommit (some "0a1b2c")
        (ofReport n.value (some "cases.json") "2024-03-09T07:05:00Z"))) ∧
    ∃ averages : Keyed (Document Float),
      (withCommit (some "0a1b2c")
        (ofReport n.value (some "cases.json") "2024-03-09T07:05:00Z")).lookup "averages" =
        some (.object averages) ∧
      ∀ s f, (.text s, f) ∈ n.value.averages → averages.lookup s = some (figures f) := by
  obtain ⟨n, hn, -⟩ := exists_report_unanswered
  exact ⟨n, hn, length_unanswered, paired_unanswered,
    read_written_finish hn length_unanswered paired_unanswered⟩

/-- **A record need not be strict JSON**: latencies may be infinite, and JSON has no word for it. -/
theorem not_strict_unanswered : ∃ n, report unanswered = .ok n ∧
    ∀ e : Document Float, ¬ IsWritten false (finish (some "0a1b2c")
      (ofReport n.value (some "cases.json") "2024-03-09T07:05:00Z")).written e := by
  obtain ⟨n, hn, x, hx, hcontains⟩ := exists_report_unanswered
  have hlists := report_lists hn
  have hkeeps := keeps_written (writable_record hlists paired_unanswered)
    (fits_record 985 (hlists.length ▸ length_unanswered))
  refine ⟨n, hn, fun e he => ?_⟩
  rw [hkeeps.strict_iff.mp ⟨e, he⟩ x (hcontains _ _ _)] at hx
  cases hx

end Doubles
end Graded
