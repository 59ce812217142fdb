/-
# Summaries of activities

What the search says of an activity is text, lists of texts and numbers, and any of it may be
missing or null.  Four summarizers judge it (`judges`), and null is nothing said to them: what they
make of an activity is one of five degrees, and null may as well be left out.

The fifth takes over a number.  It fails where the relevance is null instead of missing, or a whole
number too great for the arithmetic (`Scored`), and it does not look whether the number is a degree.
So summaries of activities are made exactly if all relevances are numbers, and all of their supports
are degrees exactly if the mean of the relevances is one (`summarize_proper`).  A mean that is no
degree is told of, for it is wholly "none" or wholly "all" (`Lawful.exists_degree_one`).

This holds in exact arithmetic, and in doubles (`lawful_real`, `lawful_double`).
-/
import Graded.Proofs.Means
import Graded.Proofs.Ranking
import Graded.Activity

namespace Graded
namespace Activity

variable {α : Type} {activity : Keyed (Document α)} {key : String}

/-! ## 1. What is said of an activity -/

/-- What is said of an activity under a name; null if nothing is. -/
def said (activity : Keyed (Document α)) (key : String) : Document α :=
  (activity.lookup key).getD .null

def isNull : Document α → Bool
  | .null => true
  | _ => false

/-- What is said of an activity, without null. -/
def withoutNulls (activity : Keyed (Document α)) : Keyed (Document α) :=
  activity.filter fun m => !isNull m.2

inductive IsText : Document α → Prop
  | null : IsText .null
  | text (s : String) : IsText (.text s)

inductive IsTexts : Document α → Prop
  | null : IsTexts .null
  | list (ss : List String) : IsTexts (.list (ss.map .text))

inductive IsNumber : Document α → Prop
  | null : IsNumber .null
  | integer (n : ℤ) : IsNumber (.integer n)
  | real (x : α) : IsNumber (.real x)

/-- An activity as the search gives it: each field that a summarizer reads is missing, null or of
its kind. -/
structure Proper (activity : Keyed (Document α)) : Prop where
  nodup : activity.keys.Nodup
  difficulty : IsText (said activity "difficulty")
  audience : IsTexts (said activity "suitableFor")
  experience : IsText (said activity "experienceType")
  time : IsText (said activity "neededTime")
  relevance : IsNumber (said activity "relevance_score")

theorem lookup_withoutNulls (h : activity.keys.Nodup) (key : String) :
    (withoutNulls activity).lookup key = (activity.lookup key).filter (!isNull ·) := by
  have hkept : (withoutNulls activity).keys.Nodup := h.sublist (List.filter_sublist.map _)
  refine Option.ext fun d => ?_
  rw [Keyed.lookup_eq_some_iff hkept, withoutNulls, List.mem_filter, Option.filter_eq_some_iff,
    Keyed.lookup_eq_some_iff h]

/-- Nothing else is said without null. -/
theorem said_withoutNulls (h : activity.keys.Nodup) (key : String) :
    said (withoutNulls activity) key = said activity key := by
  rw [said, said, lookup_withoutNulls h]
  rcases activity.lookup key with _ | d
  · rfl
  · cases d <;> rfl

/-! ## 2. Four summarizers that judge -/

variable [Scalar α] {s : Summarizer (Document α) α}

/-- The degrees that activities are judged by. -/
def levels : List α := [0, 0.3, 0.7, 0.8, 1]

/-- The judgement is one of the levels. -/
def IsLevel (r : Except (Fault α) α) : Prop := ∃ x ∈ levels, r = .ok x

theorem IsLevel.ite {c : Prop} [Decidable c] {r r' : Except (Fault α) α} (h : IsLevel r)
    (h' : IsLevel r') : IsLevel (if c then r else r') := by
  split_ifs
  · exact h
  · exact h'

theorem isLevel_pure {x : α} (h : x ∈ levels) : IsLevel (pure x : Except (Fault α) α) :=
  ⟨x, h, rfl⟩

theorem IsLevel.bind {β : Type} {r : Except (Fault α) β} {f : β → Except (Fault α) α}
    (h : ∃ y, r = .ok y) (hf : ∀ y, IsLevel (f y)) : IsLevel (r >>= f) := by
  obtain ⟨y, rfl⟩ := h
  exact hf y

/-- A text that is missing or null is empty. -/
theorem exists_loweredField (h : IsText (said activity key)) :
    ∃ cs, loweredField (.object activity) key = .ok cs := by
  have hfield : loweredField (.object activity) key =
      if (said activity key).holds then lowered (said activity key) else return [] := rfl
  rw [hfield]
  generalize said activity key = d at h
  cases h with
  | null => exact ⟨[], rfl⟩
  | text s =>
    split_ifs
    · exact ⟨_, rfl⟩
    · exact ⟨[], rfl⟩

theorem isLevel_easy (h : IsText (said activity "difficulty")) :
    IsLevel (easy (.object activity)) := by
  refine .bind (exists_loweredField h) fun cs => .ite ?_ (.ite ?_ ?_)
  all_goals exact isLevel_pure (by simp [levels])

theorem isLevel_outdoor (h : IsText (said activity "experienceType")) :
    IsLevel (outdoor (.object activity)) := by
  refine .bind (exists_loweredField h) fun cs => .ite ?_ (.ite ?_ ?_)
  all_goals exact isLevel_pure (by simp [levels])

theorem isLevel_quick (h : IsText (said activity "neededTime")) :
    IsLevel (quick (.object activity)) := by
  refine .bind (exists_loweredField h) fun cs => .ite ?_ (.ite ?_ (.ite ?_ ?_))
  all_goals exact isLevel_pure (by simp [levels])

/-- The audience in lower case, if anything is said of it. -/
theorem exists_audience {d : Document α} (h : IsTexts d) (hd : d.holds) :
    ∃ css, (do (← d.items).mapM lowered : Except (Fault α) _) = .ok css := by
  cases h with
  | null => cases hd
  | list ss =>
    have hlowered : ∀ d ∈ ss.map (.text : String → Document α),
        ∃ cs : List Char, lowered d = .ok cs ∧ True := by
      intro d hd
      obtain ⟨s, -, rfl⟩ := List.mem_map.mp hd
      exact ⟨_, rfl, trivial⟩
    obtain ⟨css, hcss, -⟩ := exists_mapM hlowered
    exact ⟨css, hcss⟩

theorem isLevel_forFamilies (h : IsTexts (said activity "suitableFor")) :
    IsLevel (forFamilies (.object activity)) := by
  change IsLevel (if (said activity "suitableFor").holds then _ else _)
  split_ifs with hholds
  · refine .bind (exists_audience h hholds) fun css => .ite ?_ (.ite ?_ ?_)
    all_goals exact isLevel_pure (by simp [levels])
  · refine .bind ⟨[], rfl⟩ fun css => .ite ?_ (.ite ?_ ?_)
    all_goals exact isLevel_pure (by simp [levels])

/-- The summarizers that judge what is said. -/
def judges : List (Summarizer (Document α) α) :=
  [⟨"easy", easy⟩, ⟨"suitable for families", forFamilies⟩, ⟨"outdoor activities", outdoor⟩,
   ⟨"quick visits", quick⟩]

theorem name_of_mem_judges (hs : s ∈ judges) : s.name ≠ "highly relevant" := by
  simp only [judges, List.mem_cons, List.not_mem_nil, or_false] at hs
  rcases hs with rfl | rfl | rfl | rfl
  all_goals simp

theorem isLevel_degree (h : Proper activity) (hs : s ∈ judges) :
    IsLevel (s.degree (.object activity)) := by
  simp only [judges, List.mem_cons, List.not_mem_nil, or_false] at hs
  rcases hs with rfl | rfl | rfl | rfl
  · exact isLevel_easy h.difficulty
  · exact isLevel_forFamilies h.audience
  · exact isLevel_outdoor h.experience
  · exact isLevel_quick h.time

/-- Nothing else matters to a judgement. -/
theorem degree_congr {other : Keyed (Document α)} (h : ∀ key, said other key = said activity key)
    (hs : s ∈ judges) : s.degree (.object other) = s.degree (.object activity) := by
  have hfield : ∀ key, field (.object other) key =
      (field (.object activity) key : Except (Fault α) _) := fun key => congrArg Except.ok (h key)
  simp only [judges, List.mem_cons, List.not_mem_nil, or_false] at hs
  rcases hs with rfl | rfl | rfl | rfl
  · simp only [easy, loweredField, hfield]
  · simp only [forFamilies, hfield]
  · simp only [outdoor, loweredField, hfield]
  · simp only [quick, loweredField, hfield]

/-! ## 3. The relevance that is taken over -/

/-- The relevance is missing or is a number of the arithmetic. -/
structure Scored (activity : Keyed (Document α)) : Prop where
  not_null : activity.lookup "relevance_score" ≠ some .null
  within : ∀ n : ℤ, said activity "relevance_score" = .integer n →
    Scalar.isInfinite (n : α) = false

/-- The relevance of an activity; 0 if it is missing. -/
def score (activity : Keyed (Document α)) : α :=
  match said activity "relevance_score" with
  | .integer n => (n : α)
  | .real x => x
  | _ => 0

theorem relevant_of_scored (h : IsNumber (said activity "relevance_score"))
    (hscored : Scored activity) : relevant (.object activity) = .ok (score activity) := by
  obtain ⟨hnull, hwithin⟩ := hscored
  rw [score]
  rw [said] at h hwithin ⊢
  rw [relevant]
  cases hlookup : activity.lookup "relevance_score" with
  | none => rfl
  | some d =>
    rw [hlookup] at h hwithin hnull
    rw [Option.getD_some] at h hwithin ⊢
    cases h with
    | null => exact absurd rfl hnull
    | integer n =>
      change (if Scalar.isInfinite (n : α) then _ else _) = _
      rw [if_neg (by simp [hwithin n rfl])]
    | real x => rfl

theorem scored_of_relevant {x : α} (h : relevant (.object activity) = .ok x) :
    Scored activity := by
  rw [relevant] at h
  constructor
  · intro hnull
    rw [hnull] at h
    cases h
  · intro n hn
    rw [said] at hn
    cases hlookup : activity.lookup "relevance_score" with
    | none =>
      rw [hlookup] at hn
      cases hn
    | some d =>
      rw [hlookup, Option.getD_some] at hn
      rw [hlookup, hn] at h
      change (if Scalar.isInfinite (n : α) then _ else _) = _ at h
      split_ifs at h with hinfinite
      exact Bool.eq_false_iff.mpr hinfinite

/-- Where the relevance is not null, null may be left out. -/
theorem relevant_withoutNulls (h : activity.keys.Nodup)
    (hnull : activity.lookup "relevance_score" ≠ some .null) :
    relevant (.object (withoutNulls activity)) =
      (relevant (.object activity) : Except (Fault α) α) := by
  have hlookup : (withoutNulls activity).lookup "relevance_score" =
      activity.lookup "relevance_score" := by
    rw [lookup_withoutNulls h]
    cases hd : activity.lookup "relevance_score" with
    | none => rfl
    | some d =>
      cases d with
      | null => exact absurd hd hnull
      | _ => rfl
  simp only [relevant, hlookup]

theorem mem_summarizers : s ∈ summarizers ↔ s ∈ judges ∨ s = ⟨"highly relevant", relevant⟩ := by
  have hparts : summarizers = judges ++ [⟨"highly relevant", (relevant (α := α))⟩] := rfl
  rw [hparts, List.mem_append, List.mem_singleton]

theorem degree_withoutNulls (h : activity.keys.Nodup)
    (hnull : activity.lookup "relevance_score" ≠ some .null) (hs : s ∈ summarizers) :
    s.degree (.object (withoutNulls activity)) = s.degree (.object activity) := by
  rcases mem_summarizers.mp hs with hs | rfl
  · exact degree_congr (said_withoutNulls h) hs
  · exact relevant_withoutNulls h hnull

/-! ## 4. Arithmetics -/

/-- In this arithmetic numbers can be compared, means of fewer than so many degrees are degrees, and
the decimals that activities are summarized with say what they should. -/
structure Lawful (α : Type) [Scalar α] (limit : ℕ) : Prop extends Scalar.Comparable α where
  means : Scalar.MeansBelow α limit
  zero_eq : (0.0 : α) = 0
  one_eq : (1.0 : α) = 1
  half_le : (0.5 : α) ≤ 1
  levels_mem : ∀ x ∈ levels, (0 : α) ≤ x ∧ x ≤ 1

theorem lawful_real (limit : ℕ) : Lawful ℝ limit where
  toComparable := Scalar.comparable_real
  means := Scalar.meansBelow_real limit
  zero_eq := by norm_num
  one_eq := by norm_num
  half_le := by norm_num
  levels_mem := by norm_num [levels]

theorem lawful_double : Lawful Float (2 ^ 53) where
  toComparable := Decimal.comparable_double
  means := Decimal.meansBelow_double
  zero_eq := by decide +kernel
  one_eq := by decide +kernel
  half_le := by decide +kernel
  levels_mem := by decide +kernel

variable {limit : ℕ} {p : α}

theorem Lawful.clamp_one (hα : Lawful α limit) : Scalar.clamp (1 : α) = 1 := by
  have hle : (0 : α) ≤ 1 := (hα.levels_mem 1 (by simp [levels])).1
  obtain ⟨h0, h1⟩ := hα.defined hle
  have hlt : ¬ (1 : α) < 0 := fun h => (hα.ordered.lt_iff h1 h0).mp h hle
  rw [Scalar.clamp, if_neg hlt, ite_self]

/-- A proportion that is no degree is wholly "none" or wholly "all". -/
theorem Lawful.exists_degree_one (hα : Lawful α limit) (hp : ¬ (0 ≤ p ∧ p ≤ 1)) :
    ∃ q ∈ Quantifier.relative, q.degree p = 1 := by
  by_cases hlow : p ≤ 0
  · refine ⟨⟨"none", .leftShoulder 0.0 0.05, .falling⟩, by simp [Quantifier.relative], ?_⟩
    change Scalar.clamp (Shape.leftShoulderRaw 0.0 0.05 p) = 1
    rw [Shape.leftShoulderRaw, hα.zero_eq, if_pos hlow, hα.clamp_one]
  · refine ⟨⟨"all", .rightShoulder 0.95 1.0, .rising⟩, by simp [Quantifier.relative], ?_⟩
    change Scalar.clamp (Shape.rightShoulderRaw 0.95 1.0 p) = 1
    rw [Shape.rightShoulderRaw, hα.one_eq]
    by_cases hhigh : 1 ≤ p
    · rw [if_pos hhigh, hα.clamp_one]
    · -- what is neither low nor high cannot be compared
      have hundefined : Scalar.undefined p ≠ false := by
        intro hdefined
        obtain ⟨h0, h1⟩ := hα.defined (hα.levels_mem 1 (by simp [levels])).1
        exact hp ⟨(hα.ordered.total h0 hdefined).resolve_right hlow,
          (hα.ordered.total hdefined h1).resolve_right hhigh⟩
      have hle : ¬ p ≤ 0.95 := fun h => hundefined (hα.defined h).1
      have hlt : ¬ p < 1 := fun h => hundefined (hα.defined_of_lt h).1
      rw [if_neg hhigh, if_neg hle, if_neg (by simp [Shape.between, hlt]), hα.clamp_one]

/-! ## 5. Summaries of activities -/

variable {activities : List (Keyed (Document α))} {subject : String}

/-- What a summarizer makes of an activity; 0 if it fails. -/
def value (s : Summarizer (Document α) α) (d : Document α) : α := (s.degree d).toOption.getD 0

theorem degree_eq_value {d : Document α} (h : ∃ x, s.degree d = .ok x) :
    s.degree d = .ok (value s d) := by
  obtain ⟨x, hx⟩ := h
  rw [value, hx]
  rfl

theorem exists_degree (h : Proper activity) (hscored : Scored activity) (hs : s ∈ summarizers) :
    ∃ x, s.degree (.object activity) = .ok x := by
  rcases mem_summarizers.mp hs with hs | rfl
  · obtain ⟨x, -, hx⟩ := isLevel_degree h hs
    exact ⟨x, hx⟩
  · exact ⟨_, relevant_of_scored h.relevance hscored⟩

/-- The summaries of activities that have a relevance. -/
def summaries (activities : List (Keyed (Document α))) (subject : String) : List (Summary α) :=
  Summary.chosen 0.5
    (Summary.rows (activities.map .object) summarizers value subject Quantifier.relative)

theorem summarize_eq (h : ∀ a ∈ activities, Proper a) (hscored : ∀ a ∈ activities, Scored a)
    (subject : String) :
    summarize (activities.map .object) subject = .ok (summaries activities subject) := by
  refine Summary.generate_eq_chosen (fun s hs d hd => degree_eq_value ?_) 0.5
  obtain ⟨a, ha, rfl⟩ := List.mem_map.mp hd
  exact exists_degree (h a ha) (hscored a ha) hs

/-- Summaries are made only of activities that have a relevance. -/
theorem scored_of_summarize {result : List (Summary α)}
    (h : summarize (activities.map .object) subject = .ok result) :
    ∀ a ∈ activities, Scored a := by
  intro a ha
  obtain ⟨found, hfound, -⟩ := exists_of_bind h
  obtain ⟨told, htold⟩ := exists_of_mapM hfound _ (mem_summarizers.mpr (.inr rfl))
  obtain ⟨degrees, hdegrees, -⟩ := exists_of_bind htold
  obtain ⟨x, hx⟩ := exists_of_mapM hdegrees _ (List.mem_map_of_mem ha)
  exact scored_of_relevant hx

theorem summarize_withoutNulls (h : ∀ a ∈ activities, Proper a)
    (hnull : ∀ a ∈ activities, a.lookup "relevance_score" ≠ some .null) :
    summarize (activities.map fun a => .object (withoutNulls a)) subject =
      summarize (activities.map .object) subject := by
  have hdegrees : ∀ s ∈ summarizers,
      (activities.map fun a => .object (withoutNulls a)).mapM s.degree =
        (activities.map .object).mapM s.degree := by
    intro s hs
    rw [List.mapM_map, List.mapM_map]
    exact mapM_congr fun a ha => degree_withoutNulls (h a ha).nodup (hnull a ha) hs
  rw [summarize, summarize, Summary.generate, Summary.generate]
  rw [mapM_congr fun s hs => by rw [hdegrees s hs]]

/-- The mean of a judgement is a degree. -/
theorem proportion_judged (hα : Lawful α limit) (hlimit : activities.length < limit)
    (h : ∀ a ∈ activities, Proper a) (hs : s ∈ judges) :
    0 ≤ proportion ((activities.map .object).map (value s)) ∧
      proportion ((activities.map .object).map (value s)) ≤ 1 := by
  refine hα.means _ (by simpa using hlimit) fun x hx => ?_
  rw [List.map_map] at hx
  obtain ⟨a, ha, rfl⟩ := List.mem_map.mp hx
  obtain ⟨x, hmem, hx⟩ := isLevel_degree (h a ha) hs
  have hvalue : value s (.object a) = x := by
    rw [value, hx]
    rfl
  rw [Function.comp_apply, hvalue]
  exact hα.levels_mem x hmem

theorem map_value_relevant (h : ∀ a ∈ activities, Proper a)
    (hscored : ∀ a ∈ activities, Scored a) :
    (activities.map .object).map (value ⟨"highly relevant", relevant⟩) =
      activities.map (score (α := α)) := by
  rw [List.map_map]
  refine List.map_congr_left fun a ha => ?_
  have hrelevant := relevant_of_scored (h a ha).relevance (hscored a ha)
  simp only [Function.comp_apply, value, hrelevant]
  rfl

/-- A mean of the relevances that is no degree is told of. -/
theorem exists_told (hα : Lawful α limit) (h : ∀ a ∈ activities, Proper a)
    (hscored : ∀ a ∈ activities, Scored a)
    (hp : ¬ (0 ≤ proportion (activities.map score : List α) ∧
      proportion (activities.map score : List α) ≤ 1)) :
    ∃ t ∈ summaries activities subject, t.support = proportion (activities.map score) := by
  obtain ⟨q, hq, hdegree⟩ := hα.exists_degree_one hp
  have hne : (activities.map score : List α) ≠ [] := by
    intro hnil
    rw [hnil] at hp
    exact hp (hα.levels_mem 0 (by simp [levels]))
  have htruth : Truth.simple q (activities.map score) = 1 := by
    rw [Truth.simple, if_neg (by simpa using hne), hdegree]
  refine ⟨Summary.ofDegrees subject "highly relevant" (activities.map score) q, ?_, rfl⟩
  refine Summary.mem_chosen_rows.mpr ⟨_, mem_summarizers.mpr (.inr rfl), q, hq, ?_, ?_⟩
  · rw [map_value_relevant h hscored]
  · change 0.5 ≤ Truth.simple q _
    rw [htruth]
    exact hα.half_le

/-- A summary tells of a judgement or of the relevance. -/
theorem support_cases (hα : Lawful α limit) (hlimit : activities.length < limit)
    (h : ∀ a ∈ activities, Proper a) (hscored : ∀ a ∈ activities, Scored a) {t : Summary α}
    (ht : t ∈ summaries activities subject) :
    (t.summarizer ≠ "highly relevant" ∧ 0 ≤ t.support ∧ t.support ≤ 1) ∨
      (t.summarizer = "highly relevant" ∧ t.support = proportion (activities.map score)) := by
  obtain ⟨s, hs, q, -, rfl, -⟩ := Summary.mem_chosen_rows.mp ht
  rcases mem_summarizers.mp hs with hs | rfl
  · exact .inl ⟨name_of_mem_judges hs, proportion_judged hα hlimit h hs⟩
  · refine .inr ⟨rfl, ?_⟩
    rw [← map_value_relevant h hscored]
    rfl

/-- **Summaries of activities.**  They are made exactly if every activity has a relevance, and
null may be left out where no relevance is null.  Every summarizer but the last one gives degrees,
so the supports of its summaries are degrees; the last one tells of the mean of the relevances, so
all supports are degrees exactly if that is one. -/
theorem summarize_proper (hα : Lawful α limit) (hlimit : activities.length < limit)
    (h : ∀ a ∈ activities, Proper a) (subject : String) :
    ((∃ result, summarize (activities.map .object) subject = .ok result) ↔
      ∀ a ∈ activities, Scored a) ∧
    ((∀ a ∈ activities, a.lookup "relevance_score" ≠ some .null) →
      summarize (activities.map fun a => .object (withoutNulls a)) subject =
        summarize (activities.map .object) subject) ∧
    (∀ a ∈ activities, ∀ s ∈ summarizers, s.name ≠ "highly relevant" →
      ∃ x : α, s.degree (.object a) = .ok x ∧ 0 ≤ x ∧ x ≤ 1) ∧
    ∀ result, summarize (activities.map .object) subject = .ok result →
      (∀ t ∈ result, t.summarizer ≠ "highly relevant" → 0 ≤ t.support ∧ t.support ≤ 1) ∧
      (∀ t ∈ result, t.summarizer = "highly relevant" →
        t.support = proportion (activities.map score)) ∧
      ((∀ t ∈ result, 0 ≤ t.support ∧ t.support ≤ 1) ↔
        0 ≤ proportion (activities.map score : List α) ∧
          proportion (activities.map score : List α) ≤ 1) := by
  refine ⟨⟨?_, ?_⟩, summarize_withoutNulls h, ?_, ?_⟩
  · rintro ⟨result, hresult⟩
    exact scored_of_summarize hresult
  · intro hscored
    exact ⟨_, summarize_eq h hscored subject⟩
  · intro a ha s hs hname
    rcases mem_summarizers.mp hs with hs | rfl
    · obtain ⟨x, hmem, hx⟩ := isLevel_degree (h a ha) hs
      exact ⟨x, hx, hα.levels_mem x hmem⟩
    · exact absurd rfl hname
  · intro result hresult
    have hscored := scored_of_summarize hresult
    rw [summarize_eq h hscored] at hresult
    obtain rfl := Except.ok.inj hresult
    refine ⟨?_, ?_, ?_, ?_⟩
    · intro t ht hname
      rcases support_cases hα hlimit h hscored ht with hjudged | hrelevant
      · exact hjudged.2
      · exact absurd hrelevant.1 hname
    · intro t ht hname
      rcases support_cases hα hlimit h hscored ht with hjudged | hrelevant
      · exact absurd hname hjudged.1
      · exact hrelevant.2
    · intro hall
      by_contra hp
      obtain ⟨t, ht, heq⟩ := exists_told hα h hscored hp
      exact hp (heq ▸ hall t ht)
    · intro hp t ht
      rcases support_cases hα hlimit h hscored ht with hjudged | hrelevant
      · exact hjudged.2
      · rw [hrelevant.2]
        exact hp

/-- An easy walk for nobody in particular. -/
def walk : Keyed (Document Float) :=
  [("difficulty", .text "easy"), ("suitableFor", .null), ("relevance_score", .integer 1)]

/-- A short visit. -/
def visit : Keyed (Document Float) := [("neededTime", .text "< 1 h")]

theorem proper_walk : Proper walk where
  nodup := by decide
  difficulty := .text "easy"
  audience := .null
  experience := .null
  time := .null
  relevance := .integer 1

theorem proper_visit : Proper visit where
  nodup := by decide
  difficulty := .null
  audience := .null
  experience := .null
  time := .text "< 1 h"
  relevance := .null

theorem scored_walk : Scored walk where
  not_null := by rintro ⟨⟩
  within := by
    rintro _ ⟨⟩
    decide +kernel

theorem scored_visit : Scored visit where
  not_null := by rintro ⟨⟩
  within n hn := by cases hn

/-- Summaries of two activities, in doubles. -/
theorem summarize_proper_walk :
    Lawful ℝ 3 ∧ Lawful Float (2 ^ 53) ∧ (∀ a ∈ [walk, visit], Proper a) ∧
      ∃ result, summarize ([walk, visit].map .object) "search results" = .ok result ∧
        summarize ([walk, visit].map fun a => .object (withoutNulls a)) "search results" =
          .ok result ∧
        ∀ t ∈ result, 0 ≤ t.support ∧ t.support ≤ 1 := by
  have hproper : ∀ a ∈ [walk, visit], Proper a := by simp [proper_walk, proper_visit]
  have hscored : ∀ a ∈ [walk, visit], Scored a := by simp [scored_walk, scored_visit]
  obtain ⟨hmade, hnulls, -, hsupports⟩ :=
    summarize_proper lawful_double (by norm_num) hproper "search results"
  obtain ⟨result, hresult⟩ := hmade.mpr hscored
  obtain ⟨-, -, hdegrees⟩ := hsupports result hresult
  have hmean : 0 ≤ proportion ([walk, visit].map score) ∧
      proportion ([walk, visit].map score) ≤ 1 := by decide +kernel
  exact ⟨lawful_real 3, lawful_double, hproper, result, hresult,
    (hnulls fun a ha => (hscored a ha).not_null).trans hresult, hdegrees.mpr hmean⟩

/-- An activity whose relevance is null. -/
def unrated : Keyed (Document Float) := [("relevance_score", .null)]

/-- An activity whose relevance is no degree. -/
def overrated : Keyed (Document Float) := [("relevance_score", .integer 5)]

/-- No summaries are made of the one, and one of the summaries of the other has a support that is
no degree. -/
theorem not_summarize_proper :
    (∀ a ∈ [unrated, overrated], Proper a) ∧
      (∀ result, summarize [.object unrated] "search results" ≠ .ok result) ∧
      ∃ result, summarize [.object overrated] "search results" = .ok result ∧
        ∃ t ∈ result, ¬ (0 ≤ t.support ∧ t.support ≤ 1) := by
  have hunrated : Proper unrated := ⟨by decide, .null, .null, .null, .null, .null⟩
  have hoverrated : Proper overrated := ⟨by decide, .null, .null, .null, .null, .integer 5⟩
  have hproper : ∀ a ∈ [overrated], Proper a := by simp [hoverrated]
  have hscored : ∀ a ∈ [overrated], Scored a := by
    intro a ha
    rw [List.mem_singleton.mp ha]
    refine ⟨by rintro ⟨⟩, ?_⟩
    rintro _ ⟨⟩
    decide +kernel
  have hmean : ¬ (0 ≤ proportion ([overrated].map score) ∧
      proportion ([overrated].map score) ≤ 1) := by decide +kernel
  refine ⟨by simp [hunrated, hoverrated], ?_, ?_⟩
  · intro result hresult
    have hmade : summarize ([unrated].map .object) "search results" = .ok result := hresult
    exact (scored_of_summarize hmade unrated List.mem_cons_self).not_null rfl
  · obtain ⟨t, ht, heq⟩ := exists_told lawful_double hproper hscored hmean
    exact ⟨_, summarize_eq hproper hscored "search results", t, ht, heq ▸ hmean⟩

end Activity
end Graded
