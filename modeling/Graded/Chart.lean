/-
# Charts

What is drawn, apart from how it is put on paper: the lines with their points, the filled areas,
the bars, and the texts around them.

Degrees over a universe are drawn as a curve.  If only one of them is not 0 a curve would not show
it, so it is drawn as a mark on a vertical line.
-/
import Graded.Colour
import Graded.Comparison
import Graded.Engine.Inference
import Graded.Text.Words

namespace Graded

/-! ## 1. What is drawn -/

/-- How a line is drawn. -/
inductive Stroke where
  | solid
  | dashed
  | dotted
  | dashDotted
  deriving DecidableEq, Repr

namespace Stroke

/-- The signs and the names of the strokes and of having none.  The first for each is the one it
is written with. -/
def signs : List (String × Option Stroke) :=
  [("-", some solid), ("--", some dashed), (":", some dotted), ("-.", some dashDotted),
   ("None", none), ("solid", some solid), ("dashed", some dashed), ("dotted", some dotted),
   ("dashdot", some dashDotted), ("none", none), (" ", none), ("", none)]

/-- The sign of a stroke. -/
def sign (s : Option Stroke) : String :=
  match signs.find? fun p => p.2 = s with
  | some p => p.1
  | none => ""

example : sign (some dotted) = ":" ∧ sign none = "None" := by decide

/-- The stroke that a document asks for.  Null asks for a solid one. -/
def read {α : Type} (d : Document α) : Except (Fault α) (Option Stroke) :=
  match d with
  | .null => .ok (some solid)
  | .text s => match signs.lookup s with
    | some stroke => .ok stroke
    | none => .error .noStroke
  | _ => .error .noStroke

end Stroke

/-- A line through points.  Without a stroke only the points are seen, if they are marked. -/
structure Line (α : Type) where
  label : Option String
  colour : Colour
  stroke : Option Stroke
  marked : Bool
  opacity : Option α
  xs : List α
  ys : List α

/-- A bar that stands on the axis. -/
structure Bar (α : Type) where
  left : α
  width : α
  height : α
  colour : Colour

/-- A chart.  The range is that of the vertical axis. -/
structure Chart (α : Type) where
  lines : List (Line α)
  fills : Nat
  bars : List (Bar α)
  ticks : List (α × String)
  title : String
  xLabel : String
  yLabel : String
  range : α × α
  legend : Option (List String)

namespace Chart

/-- The colour of curves that have no other. -/
def indigo : Colour := .ofNat 0x4b0082

/-- The colours that sets and models take in turn. -/
def palette : List Colour :=
  [.ofNat 0x1b9e77, .ofNat 0xd95f02, .ofNat 0x7570b3, .ofNat 0xe7298a, .ofNat 0x66a61e]

/-- The colour of the set or model at a place. -/
def turn (i : Nat) : Colour := palette.getD (i % palette.length) indigo

/-- The labels that a legend shows: neither empty ones nor those that begin with an underscore. -/
def shownLabels (labels : List String) : List String :=
  labels.filter fun l => !l.isEmpty && !l.startsWith "_"

variable {α : Type} [Scalar α]

/-- A chart with nothing on it. -/
def blank : Chart α := ⟨[], 0, [], [], "", "", "", (0, 1), none⟩

/-- The chart with the legend of the lines it has. -/
def withLegend (c : Chart α) : Chart α :=
  { c with legend := some (shownLabels (c.lines.filterMap (·.label))) }

/-! ## 2. Curves -/

/-- How a curve of degrees is drawn. -/
structure Pen where
  label : Option String
  colour : Colour
  stroke : Option Stroke
  filled : Bool

/-- A vertical line across the whole height. -/
def vertical (x : α) (label : Option String) (colour : Colour) (opacity : α) : Line α :=
  ⟨label, colour, some .dashed, false, some opacity, [x, x], [0, 1]⟩

/-- The place of the only degree that is not 0, if there is just one. -/
def onlySupport? (degrees : List α) : Option Nat :=
  match degrees.zipIdx.filter fun d => !(d.1 == 0) with
  | [d] => some d.2
  | _ => none

/-- The horizontal axis can reach to a number. -/
def isEnd (x : α) : Bool := !Scalar.undefined x && !Scalar.isInfinite x

/-- The word for a single degree that has no label. -/
def singleLabel (label : Option String) : String :=
  (label.filter fun l => !l.isEmpty).getD "Singleton"

/-- The lines of a single degree: a vertical line, and a mark on it. -/
def mark (pen : Pen) (p : Profile α) (i : Nat) : Except (Fault α) (List (Line α)) :=
  match p.points[i]?, p.degrees[i]?, p.points.head?, p.points.getLast? with
  | some x, some y, some first, some last =>
    if isEnd first && isEnd last then
      .ok [vertical x none pen.colour 0.6,
        ⟨some (singleLabel pen.label), pen.colour, none, true, none, [x], [y]⟩]
    else .error .endNotFinite
  | _, _, _, _ => .error .emptyProfile

/-- The line of a curve. -/
def curve (pen : Pen) (p : Profile α) : Except (Fault α) (List (Line α)) :=
  if p.points.length = p.degrees.length then
    .ok [⟨pen.label, pen.colour, pen.stroke, false, none, p.points, p.degrees⟩]
  else .error .lengths

/-- The chart with a profile on it.  A single degree is not filled. -/
def draw (c : Chart α) (pen : Pen) (p : Profile α) : Except (Fault α) (Chart α) := do
  let single := onlySupport? p.degrees
  let lines ← match single with
    | some i => mark pen p i
    | none => curve pen p
  let drawn := { c with
    lines := c.lines ++ lines
    fills := if pen.filled && single.isNone then c.fills + 1 else c.fills
    range := (-0.01, 1.01) }
  return if pen.label.isSome then drawn.withLegend else drawn

/-- What the vertical axis of degrees is called. -/
def degreeLabel : String := "Degree of membership μ"

/-! ## 3. Variables and inferences -/

/-- The colour of a set: its own in a list of colours, or else the next in turn. -/
def setColour (colours : Option (Keyed Colour)) (name : String) (i : Nat) : Colour :=
  match colours with
  | some list => (list.lookup name).getD indigo
  | none => turn i

/-- The chart with the sets of a variable on it, each with its pen. -/
def drawSets (c : Chart α) (v : Variable α) (xs : List α) (pen : String → Nat → Pen) :
    Except (Fault α) (Chart α) :=
  v.sets.zipIdx.foldlM (fun c s => do c.draw (pen s.1.name s.2) ⟨xs, ← s.1.sample? xs⟩) c

/-- The sets of a variable over its domain. -/
def ofVariable (v : Variable α) (steps : Int) (colours : Option (Keyed Colour)) (filled : Bool) :
    Except (Fault α) (Chart α) := do
  let xs ← v.points? steps
  let c ← blank.drawSets v xs fun name i =>
    ⟨some (Text.spaced name), setColour colours name i, some .solid, filled⟩
  return { c with
    title := String.ofList (Text.capitalise (Text.spaced v.name).toList)
    xLabel := v.name
    yLabel := degreeLabel }

/-- An inference: the sets of the output, the accumulated profile, and the crisp value. -/
def ofInference [Legible α] (v : Variable α) (i : Inference α) : Except (Fault α) (Chart α) := do
  let sets ← blank.drawSets v i.profile.points fun name _ =>
    ⟨some (Text.spaced name), .grey, some .dotted, false⟩
  let c ← sets.draw ⟨some "Aggregated", indigo, some .solid, true⟩ i.profile
  let crisp := vertical i.crisp (some ("Crisp output " ++ Legible.places 2 i.crisp)) .black 0.8
  return { c with
    lines := c.lines ++ [crisp]
    xLabel := v.name
    yLabel := degreeLabel }.withLegend

/-! ## 4. Models -/

/-- The figures that are compared where nothing else is said. -/
def comparedFigures : List String := ["precision", "recall", "f1", "filter_accuracy"]

/-- The width of a bar, where so many models stand side by side. -/
def barWidth (models : Nat) : α := 0.8 / ((max models 1 : Nat) : α)

/-- A figure by its name; the undefined number where it is missing. -/
def figure (f : Figures α) (name : String) : Except (Fault α) α :=
  match f.toKeyed.lookup name with
  | some x => .ok (x.getD Scalar.nothing)
  | none => .error (.missing name)

/-- The bars of the model at a place, one for each figure. -/
def modelBars (names : List String) (width : α) (n : Nat) (f : Figures α) :
    Except (Fault α) (List (Bar α)) :=
  names.zipIdx.mapM fun (name, i) => do
    let height ← figure f name
    return ⟨(i : α) + (n : α) * width - width / 2.0, width, height, turn n⟩

/-- A truth value. -/
def isTruth : Document α → Bool
  | .bool _ => true
  | _ => false

/-- A truth value among models of other kinds names none of them. -/
def mixesTruths (models : List (Document α)) : Bool := models.any isTruth && !models.all isTruth

/-- The average figures of models, side by side. -/
def ofAverages [Legible α] (averages : List (Document α × Figures α)) (names : List String) :
    Except (Fault α) (Chart α) := do
  if mixesTruths (averages.map (·.1)) then throw .truthLabel
  let width : α := barWidth averages.length
  let bars ← averages.zipIdx.mapM fun (a, n) => modelBars names width n a.2
  return { (blank : Chart α) with
    bars := bars.flatten
    ticks := names.zipIdx.map fun (name, i) =>
      ((i : α) + width * ((averages.length - 1 : Int) : α) / 2.0, Text.spaced name)
    range := (0, 1.05)
    legend := some (shownLabels (averages.map fun a => a.1.plain)) }

end Chart
end Graded
