/-
# Piecewise linear shapes, drawn in passes

A piecewise linear shape can be drawn over many values at once, in passes.  Each pass writes where
its condition holds, over what the passes before it have left there, and what it writes is a level
or a quotient.  A plateau is put together from two shoulders, of which both are drawn everywhere.

What is left after the last pass is the value of the formula, in any arithmetic (`drawn_eq_raw`):
the formula asks for the last pass first.  So the divisions on the way are known (`divisors`), those
included whose result is written over.  Since a pass divides only between the ends of its slope, all
of them are by positive numbers (`divisors_pos`), and no value leaves the unit interval (`raw_mem`),
whatever the order of the parameters is.
-/
import Graded.Proofs.Shape

namespace Graded.Shape

/-! ## 1. Passes -/

/-- What a pass writes. -/
inductive Entry (α : Type) where
  | level (y : α)
  | quotient (numerator denominator : α)

/-- A pass writes at a value if its condition holds there. -/
structure Pass (α : Type) where
  holds : Bool
  entry : Entry α

/-- What drawing a shape leaves at a value, and what was divided by there. -/
structure Drawing (α : Type) where
  drawn : α
  divisors : List α

section

variable {α : Type} [Scalar α] {s : Shape α} {x : α}

def Entry.value : Entry α → α
  | level y => y
  | quotient n d => n / d

def Entry.divisors : Entry α → List α
  | level _ => []
  | quotient _ d => [d]

/-- A pass over what was there before. -/
def Pass.over (y : α) (p : Pass α) : α := if p.holds then p.entry.value else y

def Pass.divisors (p : Pass α) : List α := if p.holds then p.entry.divisors else []

/-- Passes one after the other, over a ground. -/
def Drawing.ofPasses (ground : α) (passes : List (Pass α)) : Drawing α :=
  ⟨passes.foldl Pass.over ground, passes.flatMap Pass.divisors⟩

/-- A slope that rises from `a` to `b`. -/
def rising (a b x : α) : Pass α := ⟨between a x b, .quotient (x - a) (b - a)⟩

/-- A slope that falls from `a` to `b`. -/
def falling (a b x : α) : Pass α := ⟨between a x b, .quotient (b - x) (b - a)⟩

/-! ## 2. Drawings -/

def triangle (a b c x : α) : Drawing α :=
  .ofPasses 0 [rising a b x, ⟨x == b, .level 1⟩, falling b c x]

def trapezium (a b c d x : α) : Drawing α :=
  .ofPasses 0 [⟨b ≤ x && x ≤ c, .level 1⟩, rising a b x, falling c d x]

def fallingShoulder (a b x : α) : Drawing α :=
  .ofPasses 0 [falling a b x, ⟨x ≤ a, .level 1⟩]

def risingShoulder (a b x : α) : Drawing α :=
  .ofPasses 1 [rising a b x, ⟨x ≤ a, .level 0⟩, ⟨b ≤ x, .level 1⟩]

/-- Both shoulders are drawn and cut off before one of them is chosen. -/
def twoShoulders (a b c d x : α) : Drawing α :=
  let up := risingShoulder a b x
  let down := fallingShoulder c d x
  ⟨if x ≤ b then Scalar.clamp up.drawn else if x ≤ c then 1 else Scalar.clamp down.drawn,
    up.divisors ++ down.divisors⟩

/-- The drawing of a shape at a value; smooth shapes are not drawn in passes. -/
def drawing? : Shape α → α → Option (Drawing α)
  | triangular a b c, x => some (triangle a b c x)
  | trapezoidal a b c d, x => some (trapezium a b c d x)
  | leftShoulder a b, x => some (fallingShoulder a b x)
  | rightShoulder a b, x => some (risingShoulder a b x)
  | plateau a b c d, x => some (twoShoulders a b c d x)
  | gaussian .., _ | bell .., _ | sigmoid .., _ => none

theorem drawn_fallingShoulder (a b x : α) :
    (fallingShoulder a b x).drawn = leftShoulderRaw a b x := by
  simp [fallingShoulder, Drawing.ofPasses, Pass.over, falling, Entry.value, leftShoulderRaw, fall]

theorem drawn_risingShoulder (a b x : α) :
    (risingShoulder a b x).drawn = rightShoulderRaw a b x := by
  simp [risingShoulder, Drawing.ofPasses, Pass.over, rising, Entry.value, rightShoulderRaw, rise]

/-- **The last pass that writes decides**, as the formula of the shape does. -/
theorem drawn_eq_raw {d : Drawing α} (h : s.drawing? x = some d) : d.drawn = s.raw x := by
  cases s with
  | triangular a b c => cases h; rfl
  | trapezoidal a b c d => cases h; rfl
  | leftShoulder a b => cases h; exact drawn_fallingShoulder a b x
  | rightShoulder a b => cases h; exact drawn_risingShoulder a b x
  | plateau a b c d =>
    cases h
    simp only [twoShoulders, drawn_fallingShoulder, drawn_risingShoulder]
    rfl
  | gaussian | bell | sigmoid => cases h

end

/-! ## 3. Divisions -/

variable {a b c d x : ℝ} {s : Shape ℝ}

theorem rising_divisors_pos (a b x : ℝ) : ∀ y ∈ (rising a b x).divisors, 0 < y := by
  intro y hy
  by_cases h : between a x b = true
  · rw [Pass.divisors, rising, if_pos h] at hy
    obtain rfl := List.mem_singleton.mp hy
    exact width_pos h
  · rw [Pass.divisors, rising, if_neg h] at hy
    cases hy

theorem falling_divisors_pos (a b x : ℝ) : ∀ y ∈ (falling a b x).divisors, 0 < y :=
  rising_divisors_pos a b x

theorem level_divisors (h : Bool) (y : ℝ) : (⟨h, .level y⟩ : Pass ℝ).divisors = [] :=
  ite_self []

theorem fallingShoulder_divisors_pos (a b x : ℝ) :
    ∀ y ∈ (fallingShoulder a b x).divisors, 0 < y := by
  simpa [fallingShoulder, Drawing.ofPasses, level_divisors] using falling_divisors_pos a b x

theorem risingShoulder_divisors_pos (a b x : ℝ) :
    ∀ y ∈ (risingShoulder a b x).divisors, 0 < y := by
  simpa [risingShoulder, Drawing.ofPasses, level_divisors] using rising_divisors_pos a b x

/-- **Every division is by a positive number**, whatever the order of the parameters is. -/
theorem divisors_pos {d : Drawing ℝ} (h : s.drawing? x = some d) : ∀ y ∈ d.divisors, 0 < y := by
  cases s with
  | triangular a b c =>
    cases h
    have hslopes := List.forall_mem_append.mpr
      ⟨rising_divisors_pos a b x, falling_divisors_pos b c x⟩
    simpa [triangle, Drawing.ofPasses, level_divisors] using hslopes
  | trapezoidal a b c d =>
    cases h
    have hslopes := List.forall_mem_append.mpr
      ⟨rising_divisors_pos a b x, falling_divisors_pos c d x⟩
    simpa [trapezium, Drawing.ofPasses, level_divisors] using hslopes
  | leftShoulder a b => cases h; exact fallingShoulder_divisors_pos a b x
  | rightShoulder a b => cases h; exact risingShoulder_divisors_pos a b x
  | plateau a b c d =>
    cases h
    exact List.forall_mem_append.mpr
      ⟨risingShoulder_divisors_pos a b x, fallingShoulder_divisors_pos c d x⟩
  | gaussian | bell | sigmoid => cases h

/-! ## 4. Values -/

theorem rise_mem (h : between a x b = true) : rise a b x ∈ unitInterval := by
  obtain ⟨hax, hxb⟩ := between_iff.mp h
  have hwidth := width_pos h
  exact ⟨div_nonneg (by linarith) hwidth.le, (div_le_one hwidth).mpr (by linarith)⟩

theorem fall_mem (h : between a x b = true) : fall a b x ∈ unitInterval := by
  rw [fall_eq (sub_pos.mp (width_pos h))]
  exact Set.Icc.mem_iff_one_sub_mem.mp (rise_mem h)

/-- **The formula of a piecewise linear shape stays in the unit interval**: nothing is cut off. -/
theorem raw_mem {d : Drawing ℝ} (h : s.drawing? x = some d) : s.raw x ∈ unitInterval := by
  cases s with
  | triangular a b c =>
    change triangularRaw a b c x ∈ unitInterval
    unfold triangularRaw
    split_ifs with hfall _ hrise
    · exact fall_mem hfall
    · exact unitInterval.one_mem
    · exact rise_mem hrise
    · exact unitInterval.zero_mem
  | trapezoidal a b c d =>
    change trapezoidalRaw a b c d x ∈ unitInterval
    unfold trapezoidalRaw
    split_ifs with hfall hrise
    · exact fall_mem hfall
    · exact rise_mem hrise
    · exact unitInterval.one_mem
    · exact unitInterval.zero_mem
  | leftShoulder a b =>
    change leftShoulderRaw a b x ∈ unitInterval
    unfold leftShoulderRaw
    split_ifs with _ hfall
    · exact unitInterval.one_mem
    · exact fall_mem hfall
    · exact unitInterval.zero_mem
  | rightShoulder a b =>
    change rightShoulderRaw a b x ∈ unitInterval
    unfold rightShoulderRaw
    split_ifs with _ _ hrise
    · exact unitInterval.one_mem
    · exact unitInterval.zero_mem
    · exact rise_mem hrise
    · exact unitInterval.one_mem
  | plateau a b c d =>
    change plateauRaw a b c d x ∈ unitInterval
    unfold plateauRaw
    split_ifs
    · exact Scalar.clamp_mem _
    · exact unitInterval.one_mem
    · exact Scalar.clamp_mem _
  | gaussian | bell | sigmoid => cases h

end Graded.Shape
