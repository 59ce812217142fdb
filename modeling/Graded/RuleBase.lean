/-
# Rule bases

Two rule bases come ready made.  The first turns the similarity of two texts into confidence,
band by band; the second turns similarity and confidence into relevance.  `Engine.ready` is an
engine with the variables and the rules of one of them.
-/
import Graded.Engine

namespace Graded

/-- The rule bases. -/
inductive RuleBase where
  | confidence
  | relevance
  deriving DecidableEq, Repr

namespace RuleBase

variable {α : Type} [Scalar α]

/-! ## 1. The rules -/

/-- From the band of similarity to the band of confidence. -/
def confidenceRules : List (Rule α) :=
  let rule := fun id similarity confidence =>
    Rule.plain id [("similarity", similarity)] ⟨"confidence", confidence⟩
  [rule "conf_r1" "exact_match" "very_high",
   rule "conf_r2" "strong_match" "high",
   rule "conf_r3" "partial_match" "medium",
   rule "conf_r4" "weak_match" "low",
   rule "conf_r5" "no_match" "very_low"]

/-- From similarity and confidence to the band of relevance.  The last two rules are the edge
cases: very high confidence promotes a partial match, and low confidence demotes a strong one. -/
def relevanceRules : List (Rule α) :=
  let alone := fun id similarity relevance =>
    Rule.plain id [("similarity", similarity)] ⟨"relevance", relevance⟩
  let both := fun id similarity confidence relevance =>
    Rule.plain id [("similarity", similarity), ("confidence", confidence)] ⟨"relevance", relevance⟩
  [both "rel_r1" "exact_match" "very_high" "perfectly_relevant",
   both "rel_r2" "strong_match" "high" "highly_relevant",
   alone "rel_r3" "partial_match" "relevant",
   alone "rel_r4" "weak_match" "marginally_relevant",
   alone "rel_r5" "no_match" "irrelevant",
   both "rel_r6" "partial_match" "very_high" "highly_relevant",
   both "rel_r7" "strong_match" "low" "relevant"]

/-- The rules of a rule base, in order. -/
def rules : RuleBase → List (Rule α)
  | confidence => confidenceRules
  | relevance => relevanceRules

/-- The variables that the rules speak of. -/
def subjects : RuleBase → List (Variable α)
  | confidence => [Vocabulary.similarity, Vocabulary.confidence]
  | relevance => [Vocabulary.similarity, Vocabulary.confidence, Vocabulary.relevance]

/-! ## 2. By name -/

/-- The rule bases with a name. -/
def catalogue : List (String × RuleBase) := [("confidence", confidence), ("relevance", relevance)]

/-- The rule base of a name. -/
def find? (name : String) : Option RuleBase := catalogue.lookup name

/-- The rules of the rule base of a name. -/
def rulesOf (name : String) : Except (Fault α) (List (Rule α)) :=
  match find? name with
  | some b => .ok b.rules
  | none => .error (.missing name)

end RuleBase

/-! ## 3. Ready engines -/

namespace Engine

variable {α : Type} [Scalar α]

/-- An engine with the variables and the rules of a rule base. -/
def ready (settings : Settings α) (b : RuleBase) : Engine α :=
  (((empty settings).declareAll (b.subjects.map (⟨.vocabulary, ·⟩))).1.addRules b.rules).1

/-- An engine with the rule base of a name.  The name is looked at before the settings. -/
def build (name : String) (changes : Keyed (Entry α)) : Except (Fault α) (Engine α) :=
  match RuleBase.find? name with
  | some b => (Settings.read changes).map (ready · b)
  | none => .error (.unknownRuleBase name (RuleBase.catalogue.map (·.1)))

end Engine
end Graded
