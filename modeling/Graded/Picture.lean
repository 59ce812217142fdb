/-
# Pictures

A chart of bars as coloured points.  The bars stand on a frame that leaves a margin on all sides;
where bars overlap, the earlier one is seen.

Everything is reduced to whole numbers once, when the bars are placed.  After that a point is
looked up by its two coordinates, counted from the left and from the top.
-/
import Graded.Chart

namespace Graded

/-! ## 1. Areas -/

/-- A rectangle of one colour.  It holds its left and upper edge but not the opposite ones. -/
structure Area where
  left : Nat
  right : Nat
  top : Nat
  bottom : Nat
  colour : Colour
  deriving DecidableEq, Repr

/-- The area holds a point. -/
def Area.holds (a : Area) (x y : Nat) : Bool :=
  a.left ≤ x && x < a.right && a.top ≤ y && y < a.bottom

/-- Areas on a white ground, the first on top. -/
structure Picture where
  width : Nat
  height : Nat
  areas : List Area
  deriving DecidableEq, Repr

namespace Picture

/-- The colour of a point. -/
def colourAt (p : Picture) (x y : Nat) : Colour :=
  match p.areas.find? fun a => a.holds x y with
  | some a => a.colour
  | none => .white

/-! ## 2. Bars on a frame -/

def margin : Nat := 40

/-- The size of the frame. -/
def frameWidth : Nat := 720

def frameHeight : Nat := 420

variable {α : Type} [Scalar α]

/-- How far along `size` steps a number lies between two ends; 0 if it cannot be said. -/
def along (low high : α) (size : Nat) (x : α) : Nat :=
  min size ((Scalar.truncate ((x - low) / (high - low) * (size : α))).getD 0).toNat

/-- The left and the right end of a list of bars. -/
def ends (bars : List (Bar α)) : α × α :=
  (bars.foldl (fun m b => Scalar.lesser m b.left) 0,
    bars.foldl (fun m b => Scalar.larger m (b.left + b.width)) 1)

/-- The area of a bar. -/
def areaOf (c : Chart α) (low high : α) (b : Bar α) : Area :=
  let x := fun v => margin + along low high frameWidth v
  let bottom := margin + frameHeight
  ⟨x b.left, x (b.left + b.width), bottom - along c.range.1 c.range.2 frameHeight b.height, bottom,
    b.colour⟩

/-- The lines of the frame on the left and at the bottom. -/
def frame : List Area :=
  let bottom := margin + frameHeight
  [⟨margin - 1, margin, margin, bottom + 1, .black⟩,
   ⟨margin - 1, margin + frameWidth, bottom, bottom + 1, .black⟩]

/-- The picture of the bars of a chart. -/
def ofChart (c : Chart α) : Picture :=
  let (low, high) := ends c.bars
  ⟨frameWidth + 2 * margin, frameHeight + 2 * margin, c.bars.map (areaOf c low high) ++ frame⟩

end Picture
end Graded
