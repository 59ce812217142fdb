/-
# What calls make of an engine

Four calls add to an engine: one variable, several variables, one rule, several rules
(`Addition`).  A call can fail, and calls go on after one that has failed.  So an engine that began
empty has behind it any number of calls, of which some succeeded, some failed at once and some
midway.

All four add parts one at a time, up to the first that is refused (`perform_eq_each`).  What can be
said of the engine afterwards is said by the record of the parts that were accepted (`Records`): a
name has the variable that was first accepted under it, and the rules are those that were accepted,
in order.  A part that is accepted is recorded (`Records.add`), hence the parts of a call are, hence
those of all calls (`Records.performAll`).

Rules are accepted on their own terms.  Variables are accepted if their name is free or theirs
already, so the same variable may be in the record several times and in the engine once.
-/
import Graded.Proofs.Failure
import Graded.Proofs.Engine

namespace Graded

variable {α : Type} [Scalar α]

/-! ## 1. Parts and calls -/

/-- What an engine is made of. -/
inductive Part (α : Type) [Scalar α] where
  | declared (d : Declared α)
  | rule (r : Rule α)

namespace Part

/-- The variable that a part is. -/
def declared? : Part α → Option (Declared α)
  | .declared d => some d
  | .rule _ => none

/-- The rule that a part is. -/
def rule? : Part α → Option (Rule α)
  | .declared _ => none
  | .rule r => some r

end Part

/-- A call that adds to an engine. -/
inductive Addition (α : Type) [Scalar α] where
  | declare (d : Declared α)
  | declareAll (ds : List (Declared α))
  | addRule (r : Rule α)
  | addRules (rs : List (Rule α))

/-- The parts that a call is about, in order. -/
def Addition.parts : Addition α → List (Part α)
  | .declare d => [.declared d]
  | .declareAll ds => ds.map .declared
  | .addRule r => [.rule r]
  | .addRules rs => rs.map .rule

/-- A rule is acceptable if its weight is not negative and its connective means something. -/
def Rule.Acceptable (r : Rule α) : Prop :=
  ¬ r.weight < 0 ∧ (r.connective = .and ∨ r.connective = .or)

theorem Rule.acceptable_iff {r : Rule α} : r.Acceptable ↔ r.fault? = none := by
  unfold Acceptable fault?
  split_ifs with hw
  · simp [hw]
  · cases hc : r.connective <;> simp [hw]

namespace Engine

/-- What becomes of an engine by an addition that may fail, and the fault if it does. -/
def outcome (e : Engine α) : Except (Fault α) (Engine α) → Engine α × Option (Fault α)
  | .ok e' => (e', none)
  | .error fault => (e, some fault)

/-- The engine after a call, and the fault if the call fails. -/
def perform (e : Engine α) : Addition α → Engine α × Option (Fault α)
  | .declare d => e.outcome (e.declare d)
  | .declareAll ds => e.declareAll ds
  | .addRule r => e.outcome (e.addRule r)
  | .addRules rs => e.addRules rs

/-- The engine after calls one after the other, whichever of them fail. -/
def performAll (e : Engine α) (calls : List (Addition α)) : Engine α :=
  calls.foldl (fun e call => (e.perform call).1) e

/-- The engine with one more part. -/
def add (e : Engine α) : Part α → Except (Fault α) (Engine α)
  | .declared d => e.declare d
  | .rule r => e.addRule r

/-- The parts that are accepted in calls one after the other. -/
def history (e : Engine α) : List (Addition α) → List (Part α)
  | [] => []
  | call :: calls => admitted add e call.parts ++ (e.perform call).1.history calls

variable {e e' : Engine α} {d known : Declared α} {r : Rule α} {p : Part α}

/-! ## 2. One part -/

/-- Another variable of a name is refused. -/
theorem declare_of_other (h : e.declaration? d.name = some known)
    (ho : known.provenance ≠ d.provenance) : e.declare d = .error (.variableTaken d.name) := by
  unfold declare
  split
  · next k hk =>
    rw [h] at hk
    cases hk
    rw [if_neg ho]
  · next hk =>
    rw [h] at hk
    cases hk

/-- A variable is accepted exactly if its name has no other. -/
theorem declare_iff : (∃ e', e.declare d = .ok e') ↔
    ∀ known, e.declaration? d.name = some known → known.provenance = d.provenance := by
  constructor
  · rintro ⟨e', he⟩ known hk
    by_contra ho
    rw [declare_of_other hk ho] at he
    cases he
  · intro h
    cases hd : e.declaration? d.name with
    | none =>
      obtain ⟨e', he', -⟩ := declare_of_new (declaration?_eq_none.mp hd)
      exact ⟨e', he'⟩
    | some known => exact ⟨e, declare_of_same hd (h known hd)⟩

/-- A rule is accepted exactly if it is acceptable. -/
theorem addRule_iff : (∃ e', e.addRule r = .ok e') ↔ r.Acceptable := by
  rw [Rule.acceptable_iff]
  exact ⟨fun ⟨_, h⟩ => fault?_of_addRule h, addRule_of_fault?_eq_none⟩

/-- A variable that is accepted is found under its name, unless one was found before. -/
theorem declaration?_of_declare (h : e.declare d = .ok e') (name : String) :
    e'.declaration? name = (e.declaration? name).or ([d].find? fun d => d.name == name) := by
  cases hd : e.declaration? d.name with
  | none =>
    obtain ⟨e'', he'', hdeclared, -⟩ := declare_of_new (declaration?_eq_none.mp hd)
    rw [h] at he''
    cases he''
    rw [declaration?, hdeclared, List.find?_append, declaration?]
  | some known =>
    have hsame : e.declare d = .ok e := declare_of_same hd (declare_iff.mp ⟨e', h⟩ known hd)
    rw [h] at hsame
    cases hsame
    by_cases hname : d.name = name
    · rw [← hname, hd, Option.some_or]
    · rw [List.find?_singleton, if_neg (by simpa using hname), Option.or_none]

theorem declaration?_of_addRule (h : e.addRule r = .ok e') (name : String) :
    e'.declaration? name = e.declaration? name := by
  rw [declaration?, (settings_addRule h).2, declaration?]

theorem rules_of_declare (h : e.declare d = .ok e') : e'.rules = e.rules := by
  obtain ⟨-, -, -, -, hr⟩ := declared_of_declare h
  exact hr

/-! ## 3. The parts of a call -/

theorem each_map {β γ : Type} (add : Engine α → γ → Except (Fault α) (Engine α)) (f : β → γ)
    (xs : List β) (e : Engine α) :
    each (fun e x => add e (f x)) e xs = each add e (xs.map f) := by
  induction xs generalizing e with
  | nil => rfl
  | cons x xs ih =>
    simp only [each, List.map_cons]
    cases add e (f x) with
    | error fault => rfl
    | ok e' => exact ih e'

/-- **Every call adds its parts one after the other.** -/
theorem perform_eq_each (e : Engine α) (call : Addition α) :
    e.perform call = each add e call.parts := by
  cases call with
  | declare d =>
    simp only [perform, Addition.parts, each, add]
    cases e.declare d <;> rfl
  | declareAll ds => exact each_map add .declared ds e
  | addRule r =>
    simp only [perform, Addition.parts, each, add]
    cases e.addRule r <;> rfl
  | addRules rs => exact each_map add .rule rs e

/-! ## 4. The record -/

/-- The parts of an engine are those of a record: under each name the first variable, and all
rules. -/
structure Records (e : Engine α) (record : List (Part α)) : Prop where
  bound : ∀ name, e.declaration? name =
    (record.filterMap Part.declared?).find? fun d => d.name == name
  rules : e.rules = record.filterMap Part.rule?

namespace Records

variable {record : List (Part α)}

theorem empty (o : Settings α) : Records (empty o) [] := ⟨fun _ => rfl, rfl⟩

/-- **A part that is accepted is recorded.** -/
theorem add (h : Records e record) (hp : e.add p = .ok e') : Records e' (record ++ [p]) := by
  cases p with
  | declared d =>
    constructor
    · intro name
      rw [declaration?_of_declare hp, h.bound, List.filterMap_append, List.find?_append]
      rfl
    · rw [rules_of_declare hp, h.rules, List.filterMap_append]
      exact (List.append_nil _).symm
  | rule r =>
    constructor
    · intro name
      rw [declaration?_of_addRule hp, h.bound, List.filterMap_append]
      simp [Part.declared?]
    · rw [rules_addRule hp, h.rules, List.filterMap_append]
      rfl

theorem of_foldlM {ps : List (Part α)} (h : Records e record)
    (hps : ps.foldlM Engine.add e = .ok e') : Records e' (record ++ ps) := by
  induction ps generalizing e record with
  | nil =>
    cases hps
    simpa using h
  | cons p ps ih =>
    obtain ⟨e₁, hp, hps⟩ := (foldlM_cons_eq_ok Engine.add).mp hps
    simpa using ih (h.add hp) hps

/-- **Calls keep the record**, whichever of them fail. -/
theorem performAll (h : Records e record) (calls : List (Addition α)) :
    Records (e.performAll calls) (record ++ e.history calls) := by
  induction calls generalizing e record with
  | nil => simpa [Engine.performAll, history] using h
  | cons call calls ih =>
    have hcall : Records (e.perform call).1 (record ++ admitted Engine.add e call.parts) :=
      perform_eq_each e call ▸ h.of_foldlM (foldlM_admitted Engine.add e call.parts)
    simpa [Engine.performAll, history] using ih hcall

end Records

/-- A name keeps its variable. -/
theorem declaration?_performAll {record : List (Part α)} (h : Records e record)
    (calls : List (Addition α)) {name : String} (hd : e.declaration? name = some d) :
    (e.performAll calls).declaration? name = some d := by
  rw [(h.performAll calls).bound, List.filterMap_append, List.find?_append, ← h.bound, hd,
    Option.some_or]

/-- A call that fails leaves the parts before the one that is refused, and no others. -/
theorem perform_of_fault {call : Addition α} {fault : Fault α}
    (h : (e.perform call).2 = some fault) :
    ∃ before p after, call.parts = before ++ p :: after ∧
      before.foldlM add e = .ok (e.perform call).1 ∧ (e.perform call).1.add p = .error fault := by
  rw [perform_eq_each] at h ⊢
  obtain ⟨hnone, -⟩ | ⟨fault', p, after, hf, hparts, hp⟩ := each_spec add e call.parts
  · rw [h] at hnone
    cases hnone
  · rw [h] at hf
    cases hf
    exact ⟨_, p, after, hparts, foldlM_admitted add e call.parts, hp⟩

/-- So a call that adds one part leaves everything as it was if it fails. -/
theorem perform_single {call : Addition α} (hcall : call.parts = [p])
    (h : (e.perform call).2.isSome) : (e.perform call).1 = e := by
  obtain ⟨fault, hf⟩ := Option.isSome_iff_exists.mp h
  obtain ⟨before, q, after, hparts, hbefore, -⟩ := perform_of_fault hf
  rw [hcall] at hparts
  cases before with
  | nil => exact (Except.ok.inj hbefore).symm
  | cons b before => simp at hparts

/-- **What calls make of an engine that began empty.**  Each name has the variable that was first
accepted under it, keeps it whatever is called later, and lets no other in.  The rules are those
that were accepted, in order, and all are acceptable.  A call for one part changes nothing if it
fails; a call for several leaves exactly those before the one that is refused. -/
theorem performAll_settles (o : Settings α) (calls : List (Addition α)) :
    let e := (empty o).performAll calls
    let record := (empty o).history calls
    (∀ name, e.declaration? name =
      (record.filterMap Part.declared?).find? fun d => d.name == name) ∧
    (∀ later name d, e.declaration? name = some d →
      (e.performAll later).declaration? name = some d) ∧
    (∀ d, ((∃ e', e.declare d = .ok e') ↔
      ∀ known, e.declaration? d.name = some known → known.provenance = d.provenance)) ∧
    (∀ d known, e.declaration? d.name = some known → known.provenance ≠ d.provenance →
      ∃ fault, e.declare d = .error fault ∧ fault.category = .badValue) ∧
    e.rules = record.filterMap Part.rule? ∧
    (∀ r, (∃ e', e.addRule r = .ok e') ↔ r.Acceptable) ∧
    (∀ r ∈ e.rules, r.Acceptable) ∧
    (∀ call p, call.parts = [p] → (e.perform call).2.isSome → (e.perform call).1 = e) ∧
    (∀ call fault, (e.perform call).2 = some fault → ∃ before p after,
      call.parts = before ++ p :: after ∧ before.foldlM add e = .ok (e.perform call).1 ∧
        (e.perform call).1.add p = .error fault) := by
  intro e record
  have h : Records e record := (Records.empty o).performAll calls
  refine ⟨h.bound, fun later name d => declaration?_performAll h later, fun d => declare_iff,
    fun d known hk ho => ⟨_, declare_of_other hk ho, rfl⟩, h.rules, fun r => addRule_iff,
    fun r hr => Rule.acceptable_iff.mpr (e.accepted r hr), fun call p => perform_single,
    fun call fault => perform_of_fault⟩

end Engine

namespace Doubles

/-- Calls of which the first fails at its second variable, and the second at its second rule. -/
def calls : List (Addition Float) :=
  [.declareAll [⟨.own 0, level⟩, ⟨.own 1, level⟩, ⟨.own 2, { level with name := "room" }⟩],
   .addRules [ifLow "low" 1, ifLow "high" (-1), ifLow "high" 1], .declare ⟨.own 0, level⟩,
   .addRule (ifLow "high" 1)]

/-- The level is the variable that was declared first, the room is not reached, and two rules are
left. -/
theorem performAll_settles_level :
    let e := (Engine.empty (.standard : Settings Float)).performAll calls
    e.names = ["level"] ∧ e.rules.map (·.id) = ["low", "high"] ∧
      ∃ known, e.declaration? "level" = some known ∧ known.provenance = .own 0 ∧
        (e.performAll calls).declaration? "level" = some known ∧
        (∃ fault, e.declare ⟨.own 1, level⟩ = .error fault ∧ fault.category = .badValue) ∧
        (e.perform (.declare ⟨.own 1, level⟩)).1 = e := by
  intro e
  obtain ⟨-, hkeeps, -, htaken, -, -, -, hsingle, -⟩ :=
    Engine.performAll_settles (.standard : Settings Float) calls
  have hnames : e.names = ["level"] := by decide +kernel
  have hids : e.rules.map (·.id) = ["low", "high"] := by decide +kernel
  have hlevel : (e.declaration? "level").map (·.provenance) = some (.own 0) := by decide +kernel
  have hrefused : (e.perform (.declare ⟨.own 1, level⟩)).2.isSome := by decide +kernel
  obtain ⟨known, hknown, hown⟩ := Option.map_eq_some_iff.mp hlevel
  refine ⟨hnames, hids, known, hknown, hown, hkeeps calls "level" known hknown,
    htaken ⟨.own 1, level⟩ known hknown ?_, hsingle _ _ rfl hrefused⟩
  rw [hown]
  decide

end Doubles
end Graded
