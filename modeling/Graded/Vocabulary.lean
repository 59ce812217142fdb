/-
# The vocabulary of activity search

The fuzzy variables in which a search for activities is talked about.  All of them live on the
unit interval: how sure a reading of a query is, how alike two names are, how hard an activity
is (0 is easiest), how long it takes, how well it suits, and how relevant a result is.
-/
import Graded.Variable

namespace Graded
namespace Vocabulary

variable {α : Type} [Scalar α]

/-! ## 1. The variables -/

/-- Sets that cover the unit interval, under one name. -/
def onUnit (name : String) (sets : List (FuzzySet α)) (covered : sets ≠ [])
    (distinct : (sets.map (·.name)).Nodup) : Variable α :=
  ⟨name, 0, 1, sets, covered, distinct, Scalar.zero_lt_one⟩

def confidence : Variable α := onUnit "confidence"
  [⟨"very_low", .leftShoulder 0.1 0.25⟩,
   ⟨"low", .triangular 0.1 0.25 0.4⟩,
   ⟨"medium", .triangular 0.3 0.5 0.7⟩,
   ⟨"high", .triangular 0.6 0.75 0.9⟩,
   ⟨"very_high", .rightShoulder 0.75 0.9⟩] (by simp) (by simp)

def similarity : Variable α := onUnit "similarity"
  [⟨"no_match", .leftShoulder 0.15 0.3⟩,
   ⟨"weak_match", .triangular 0.2 0.35 0.5⟩,
   ⟨"partial_match", .triangular 0.4 0.55 0.7⟩,
   ⟨"strong_match", .triangular 0.6 0.75 0.9⟩,
   ⟨"exact_match", .rightShoulder 0.8 0.95⟩] (by simp) (by simp)

def difficulty : Variable α := onUnit "difficulty"
  [⟨"very_easy", .leftShoulder 0.1 0.25⟩,
   ⟨"easy", .triangular 0.1 0.25 0.45⟩,
   ⟨"medium", .triangular 0.35 0.5 0.65⟩,
   ⟨"difficult", .triangular 0.55 0.75 0.9⟩,
   ⟨"very_difficult", .rightShoulder 0.75 0.9⟩] (by simp) (by simp)

def timeNeeded : Variable α := onUnit "time_needed"
  [⟨"very_short", .leftShoulder 0.1 0.2⟩,
   ⟨"short", .triangular 0.1 0.25 0.4⟩,
   ⟨"half_day", .triangular 0.35 0.5 0.65⟩,
   ⟨"full_day", .triangular 0.55 0.75 0.85⟩,
   ⟨"multi_day", .rightShoulder 0.75 0.9⟩] (by simp) (by simp)

def suitability : Variable α := onUnit "suitability"
  [⟨"not_suitable", .leftShoulder 0.15 0.3⟩,
   ⟨"somewhat_suitable", .triangular 0.2 0.4 0.6⟩,
   ⟨"suitable", .triangular 0.5 0.7 0.85⟩,
   ⟨"highly_suitable", .rightShoulder 0.7 0.9⟩] (by simp) (by simp)

def relevance : Variable α := onUnit "relevance"
  [⟨"irrelevant", .leftShoulder 0.2 0.35⟩,
   ⟨"marginally_relevant", .triangular 0.25 0.4 0.55⟩,
   ⟨"relevant", .triangular 0.45 0.6 0.75⟩,
   ⟨"highly_relevant", .triangular 0.65 0.8 0.92⟩,
   ⟨"perfectly_relevant", .rightShoulder 0.85 0.95⟩] (by simp) (by simp)

/-- Every variable of the vocabulary. -/
def all : List (Variable α) :=
  [confidence, similarity, difficulty, timeNeeded, suitability, relevance]

/-- The names of the variables, sorted. -/
def names : List String :=
  ["confidence", "difficulty", "relevance", "similarity", "suitability", "time_needed"]

/-- The variable of a name. -/
def find? (name : String) : Option (Variable α) := all.find? fun v => v.name == name

/-- The variable of a name, or the fault that there is none. -/
def find (name : String) : Except (Fault α) (Variable α) :=
  match find? name with
  | some v => .ok v
  | none => .error (.unknownVariable name names)

/-! ## 2. Centres

One representative value for each set, for averages that weigh sets by their membership. -/

def confidenceCentres : Keyed α :=
  [("very_low", 0.15), ("low", 0.3), ("medium", 0.5), ("high", 0.7), ("very_high", 0.85)]

def similarityCentres : Keyed α :=
  [("no_match", 0.15), ("weak_match", 0.35), ("partial_match", 0.55), ("strong_match", 0.75),
   ("exact_match", 0.9)]

def relevanceCentres : Keyed α :=
  [("irrelevant", 0.1), ("marginally_relevant", 0.35), ("relevant", 0.55),
   ("highly_relevant", 0.75), ("perfectly_relevant", 0.9)]

def difficultyCentres : Keyed α :=
  [("very_easy", 0.1), ("easy", 0.3), ("medium", 0.5), ("difficult", 0.7),
   ("very_difficult", 0.9)]

def timeNeededCentres : Keyed α :=
  [("very_short", 0.1), ("short", 0.25), ("half_day", 0.5), ("full_day", 0.75),
   ("multi_day", 0.9)]

end Vocabulary
end Graded
