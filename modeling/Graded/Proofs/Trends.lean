/-
# What quantifiers say of their trend

A quantifier may state that it rises or that it falls with the proportion.  Whether it does so is a
matter of its shape.

* A definition makes a triangle or a trapezium, of which nothing is stated, or a shoulder, which
  falls or rises as the order of its parameters says (`Formed`, `formed_of_define`).
* A shoulder keeps to one trend (`Formed.holds`), and all of these shapes rise up to a core and fall
  after it, so between two proportions they do not drop below the lower end (`Formed.min_le`).
* The quantifiers of the list are formed like that, but five triangles among them state a trend.
  A triangle between the ends of the unit interval has none (`not_holds_triangular`).

So what is stated of the trend is true of every quantifier that is defined, and of a quantifier of
the list exactly if it is not one of those five (`trend_holds_iff`).
-/
import Graded.Proofs.Shape
import Graded.Proofs.Success
import Graded.Quantifier

namespace Graded

/-! ## 1. Shapes from definitions -/

namespace Shape

variable {α : Type}

theorem kind_of_make {k : Kind} {numbers : List α} {s : Shape α} (h : make k numbers = some s) :
    s.kind = k := by
  unfold make at h
  split at h
  all_goals
    cases h
    try rfl

/-- A definition that succeeds gives a shape of the kind that it names, with parameters that make
sense. -/
theorem define_spec [Scalar α] {kind : String} {params : List (Document α)} {s : Shape α}
    (h : define kind params = .ok s) : Kind.ofName? kind = some s.kind ∧ s.check = .ok () := by
  unfold define at h
  cases hk : Kind.ofName? kind with
  | none =>
    rw [hk] at h
    cases h
  | some k =>
    rw [hk] at h
    obtain ⟨numbers, -, h⟩ := exists_of_bind h
    cases hs : make k numbers with
    | none =>
      rw [hs] at h
      cases h
    | some made =>
      rw [hs] at h
      obtain ⟨_, hcheck, h⟩ := exists_of_bind h
      cases h
      exact ⟨by rw [kind_of_make hs], hcheck⟩

/-- A shape whose parameters make sense is what its parameters define. -/
theorem define_params [Scalar α] {s : Shape α} (h : s.check = .ok ()) :
    define s.kind.name (s.params.map .real) = .ok s := by
  have hnumbers : (s.params.map Document.real).mapM Document.number = .ok s.params := by
    rw [List.mapM_map]
    exact (mapM_ok (g := id) fun _ _ => rfl).trans (by rw [List.map_id])
  simp only [define, Kind.ofName?_name, hnumbers, make_params, h, bind, Except.bind]
  rfl

end Shape

/-! ## 2. Forms of quantifiers -/

/-- What a quantifier states of its trend is so, for the proportions. -/
def Trend.Holds (f : ℝ → ℝ) : Trend → Prop
  | .rising => MonotoneOn f unitInterval
  | .falling => AntitoneOn f unitInterval
  | .unstated => True

namespace Quantifier

variable {a b c d x y z : ℝ} {s : Shape ℝ} {t : Trend} {q : Quantifier ℝ}

/-- The shapes that definitions give to quantifiers, and what they state of the trend. -/
inductive Formed : Shape ℝ → Trend → Prop
  | triangular {a b c : ℝ} : a < b → b < c → Formed (.triangular a b c) .unstated
  | trapezoidal {a b c d : ℝ} : a < b → b ≤ c → c < d → Formed (.trapezoidal a b c d) .unstated
  | falling {a b : ℝ} : a < b → Formed (.leftShoulder a b) .falling
  | rising {a b : ℝ} : a < b → Formed (.rightShoulder a b) .rising

/-- What a definition states of the trend of a shape that it makes. -/
def trendOf? : Shape.Kind → Option Trend
  | .triangular | .trapezoidal => some .unstated
  | .leftShoulder => some .falling
  | .rightShoulder => some .rising
  | _ => none

theorem formed_of_check (hkind : trendOf? s.kind = some t) (h : s.check = .ok ()) :
    Formed s t := by
  cases s with
  | triangular a b c =>
    cases hkind
    obtain ⟨hab, hbc⟩ := Shape.check_triangular.mp h
    exact .triangular hab hbc
  | trapezoidal a b c d =>
    cases hkind
    obtain ⟨hab, hbc, hcd⟩ := Shape.check_trapezoidal.mp h
    exact .trapezoidal hab hbc hcd
  | leftShoulder a b =>
    cases hkind
    exact .falling (Shape.check_leftShoulder.mp h)
  | rightShoulder a b =>
    cases hkind
    exact .rising (Shape.check_rightShoulder.mp h)
  | gaussian | bell | sigmoid | plateau => cases hkind

theorem Formed.check (h : Formed s t) : s.check = .ok () := by
  cases h with
  | triangular hab hbc => exact Shape.check_triangular.mpr ⟨hab, hbc⟩
  | trapezoidal hab hbc hcd => exact Shape.check_trapezoidal.mpr ⟨hab, hbc, hcd⟩
  | falling hab => exact Shape.check_leftShoulder.mpr hab
  | rising hab => exact Shape.check_rightShoulder.mpr hab

/-- **A definition gives one of these forms.** -/
theorem formed_of_define {name kind : String} {params : List (Document ℝ)}
    (h : define name kind params = .ok q) : Formed q.shape q.trend := by
  have hform : ∀ {kind params s k t}, Shape.define kind params = .ok s →
      Shape.Kind.ofName? kind = some k → trendOf? k = some t → Formed s t := by
    intro kind params s k t hs hk ht
    obtain ⟨hname, hcheck⟩ := Shape.define_spec hs
    rw [hk] at hname
    cases hname
    exact formed_of_check ht hcheck
  unfold define at h
  split at h
  next hkind =>
    obtain ⟨s, hs, h⟩ := exists_of_bind h
    cases h
    rcases (by simpa using hkind : kind = "triangular" ∨ kind = "trapezoidal") with rfl | rfl
    · exact hform hs (Shape.Kind.ofName?_name .triangular) rfl
    · exact hform hs (Shape.Kind.ofName?_name .trapezoidal) rfl
  next =>
    split at h
    next =>
      split at h
      next u v =>
        obtain ⟨ascending, -, h⟩ := exists_of_bind h
        cases ascending with
        | true =>
          obtain ⟨s, hs, h⟩ := exists_of_bind h
          cases h
          exact hform hs (Shape.Kind.ofName?_name .leftShoulder) rfl
        | false =>
          obtain ⟨s, hs, h⟩ := exists_of_bind h
          cases h
          exact hform hs (Shape.Kind.ofName?_name .rightShoulder) rfl
      next => cases h
    next => cases h

/-- The quantifiers of the list are formed like that, too, apart from what they state. -/
theorem formed_of_mem (hq : q ∈ relative) : ∃ t, Formed q.shape t := by
  simp only [relative, List.mem_cons, List.not_mem_nil, or_false] at hq
  rcases hq with rfl | rfl | rfl | rfl | rfl | rfl | rfl | rfl | rfl
  case inl => exact ⟨_, .falling (by norm_num)⟩
  case inr.inr.inr.inr.inr.inr.inr.inr => exact ⟨_, .rising (by norm_num)⟩
  all_goals exact ⟨_, .triangular (by norm_num) (by norm_num)⟩

/-- **Between two points a shape of these forms is no lower than at the lower one.** -/
theorem Formed.min_le (h : Formed s t) (hxy : x ≤ y) (hyz : y ≤ z) :
    min (s.degree x) (s.degree z) ≤ s.degree y := by
  -- the rising side bounds what comes after `x`, the falling one what comes before `z`
  have hsides : ∀ {a b c d : ℝ}, a < b → c < d →
      min (min ((Shape.rightShoulder a b).degree x) ((Shape.leftShoulder c d).degree x))
          (min ((Shape.rightShoulder a b).degree z) ((Shape.leftShoulder c d).degree z)) ≤
        min ((Shape.rightShoulder a b).degree y) ((Shape.leftShoulder c d).degree y) := by
    intro a b c d hab hcd
    have hrise := Shape.degree_rightShoulder_mono hab hxy
    have hfall := Shape.degree_leftShoulder_anti hcd hyz
    refine le_min ?_ ?_
    · exact (min_le_left _ _).trans ((min_le_left _ _).trans hrise)
    · exact (min_le_right _ _).trans ((min_le_right _ _).trans hfall)
  cases h with
  | triangular hab hbc =>
    simp only [Shape.degree_triangular hab hbc]
    exact hsides hab hbc
  | trapezoidal hab hbc hcd =>
    simp only [Shape.degree_trapezoidal hbc]
    exact hsides hab hcd
  | falling hab => exact (min_le_right _ _).trans (Shape.degree_leftShoulder_anti hab hyz)
  | rising hab => exact (min_le_left _ _).trans (Shape.degree_rightShoulder_mono hab hxy)

theorem define_falling (name : String) (h : a < b) :
    define name "shoulder" [.real a, .real b] = .ok ⟨name, .leftShoulder a b, .falling⟩ := by
  have hless : less (.real a) (.real b) = .ok true := congrArg Except.ok (decide_eq_true h)
  have hshape : Shape.define "left_shoulder" [.real a, .real b] = .ok (.leftShoulder a b) :=
    Shape.define_params (Formed.falling h).check
  rw [define, if_neg (by decide), if_pos rfl]
  simp only [hless, hshape, bind, Except.bind]
  rfl

theorem define_triangular (name : String) (hab : a < b) (hbc : b < c) :
    define name "triangular" [.real a, .real b, .real c] =
      .ok ⟨name, .triangular a b c, .unstated⟩ := by
  have hshape : Shape.define "triangular" [.real a, .real b, .real c] = .ok (.triangular a b c) :=
    Shape.define_params (Formed.triangular hab hbc).check
  unfold define
  rw [if_pos (by decide), hshape]
  rfl

/-! ## 3. Trends -/

/-- **What is stated of these forms is so.** -/
theorem Formed.holds (h : Formed s t) : t.Holds s.degree := by
  cases h with
  | triangular | trapezoidal => trivial
  | falling hab => exact (Shape.degree_leftShoulder_anti hab).antitoneOn _
  | rising hab => exact (Shape.degree_rightShoulder_mono hab).monotoneOn _

/-- A triangle over proportions has no trend. -/
theorem not_holds_triangular (ht : t ≠ .unstated) (h0 : 0 ≤ a) (hab : a < b) (hbc : b < c)
    (h1 : c ≤ 1) : ¬ t.Holds (Shape.triangular a b c).degree := by
  have hpos : ∀ {x}, 0 < (Shape.triangular a b c).degree x ↔ a < x ∧ x < c :=
    Shape.degree_triangular_pos_iff hab hbc
  have ha : a ∈ unitInterval := ⟨h0, by linarith⟩
  have hb : b ∈ unitInterval := ⟨by linarith, by linarith⟩
  have hc : c ∈ unitInterval := ⟨by linarith, h1⟩
  have hpeak := hpos.mpr ⟨hab, hbc⟩
  intro hholds
  cases t with
  | rising => exact lt_irrefl c (hpos.mp (hpeak.trans_le (hholds hb hc hbc.le))).2
  | falling => exact lt_irrefl a (hpos.mp (hpeak.trans_le (hholds ha hb hab.le))).1
  | unstated => exact ht rfl

/-- The quantifiers of the list that state a trend which their shape does not have. -/
def misstated : List String := ["almost_none", "few", "many", "most", "almost_all"]

theorem holds_iff_of_mem (hq : q ∈ relative) : q.trend.Holds q.degree ↔ q.name ∉ misstated := by
  simp only [relative, List.mem_cons, List.not_mem_nil, or_false] at hq
  rcases hq with rfl | rfl | rfl | rfl | rfl | rfl | rfl | rfl | rfl
  case inl => exact iff_of_true (Formed.holds (.falling (by norm_num))) (by decide)
  case inr.inr.inr.inr.inr.inr.inr.inr =>
    exact iff_of_true (Formed.holds (.rising (by norm_num))) (by decide)
  case inr.inr.inr.inl | inr.inr.inr.inr.inl => exact iff_of_true trivial (by decide)
  all_goals
    refine iff_of_false ?_ (by decide)
    exact not_holds_triangular (by decide) (by norm_num) (by norm_num) (by norm_num) (by norm_num)

/-- **What is stated of the trend holds** of a quantifier that is in the list or that a definition
makes, exactly if it is not one of the five. -/
theorem trend_holds_iff
    (hq : q ∈ relative ∨ ∃ name kind params, define name kind params = .ok q) :
    q.trend.Holds q.degree ↔ ¬ (q ∈ relative ∧ q.name ∈ misstated) := by
  rw [not_and]
  constructor
  · intro hholds hmem
    exact (holds_iff_of_mem hmem).mp hholds
  · intro hclear
    rcases hq with hmem | ⟨name, kind, params, hdefined⟩
    · exact (holds_iff_of_mem hmem).mpr (hclear hmem)
    · exact (formed_of_define hdefined).holds

/-- A quantifier that holds up to a tenth, and from three tenths on no more. -/
noncomputable def barely : Quantifier ℝ := ⟨"barely_any", .leftShoulder 0.1 0.3, .falling⟩

/-- A quantifier of the list, and one that a definition makes. -/
theorem trend_holds_iff_barely :
    (∃ q : Quantifier ℝ, q ∈ relative ∧ q.name = "few" ∧ ¬ q.trend.Holds q.degree) ∧
      define "barely_any" "shoulder" [.real 0.1, .real 0.3] = .ok barely ∧
      AntitoneOn barely.degree unitInterval := by
  have hfew : ⟨"few", .triangular 0.05 0.15 0.35, .falling⟩ ∈ (relative : List (Quantifier ℝ)) := by
    simp [relative]
  have hbarely : define "barely_any" "shoulder" [.real 0.1, .real 0.3] = .ok barely :=
    define_falling "barely_any" (by norm_num)
  refine ⟨⟨_, hfew, rfl, ?_⟩, hbarely, ?_⟩
  · rw [trend_holds_iff (.inl hfew), not_not]
    exact ⟨hfew, by decide⟩
  · refine (trend_holds_iff (.inr ⟨_, _, _, hbarely⟩)).mpr ?_
    rintro ⟨-, hname⟩
    exact absurd hname (by decide)

/-- **Not every trend that is stated is so**: "almost none" is to fall, but rises at first. -/
theorem not_trend_holds :
    ¬ ∀ q : Quantifier ℝ, q ∈ relative → q.trend.Holds q.degree := by
  intro hholds
  have hmem : ⟨"almost_none", .triangular 0.0 0.05 0.15, .falling⟩ ∈
      (relative : List (Quantifier ℝ)) := by
    simp [relative]
  exact not_holds_triangular (by decide) (by norm_num) (by norm_num) (by norm_num) (by norm_num)
    (hholds _ hmem)

end Quantifier
end Graded
