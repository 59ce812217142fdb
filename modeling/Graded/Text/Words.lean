/-
# Words and parts of texts

Names of sets and quantifiers join their words by underscores; `spaced` writes them with spaces.
`within` looks for one text inside another.
-/

namespace Graded
namespace Text

/-- A name with its underscores written as spaces. -/
def spaced (name : String) : String :=
  String.ofList (name.toList.map fun c => if c = '_' then ' ' else c)

/-- The first text occurs inside the second. -/
def within (part : List Char) : List Char → Bool
  | [] => part.isEmpty
  | c :: cs => part.isPrefixOf (c :: cs) || within part cs

/-- `within` decides the infix relation. -/
theorem within_iff {part whole : List Char} : within part whole = true ↔ part <:+: whole := by
  induction whole with
  | nil => simp [within]
  | cons c cs ih => simp [within, List.infix_cons_iff, ih]

example : within "ent".toList "adventure".toList = true := by decide

end Text
end Graded
