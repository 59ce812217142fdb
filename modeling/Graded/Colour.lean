/-
# Colours

A colour is three components of eight bits each.  It is written as a number sign and six
hexadecimal digits, and it may be asked for in other ways:

* by three or four components of one or two hexadecimal digits each, after a number sign;
* by a name, of the long list of names or of the short one of letters;
* by a place in the order of colours that curves take in turn, as in `C3`;
* as a grey, by one number of the unit interval, or by a list of three or four such numbers.

A fourth component says how much shines through; it is read and left out.
-/
import Graded.Document.Number

namespace Graded

/-- A colour by its three components. -/
structure Colour where
  red : UInt8
  green : UInt8
  blue : UInt8
  deriving DecidableEq, Repr, Inhabited

namespace Colour

/-! ## 1. Components -/

/-- The colour of a number, whose last three bytes are the components. -/
def ofNat (n : Nat) : Colour := ⟨.ofNat (n / 65536), .ofNat (n / 256), .ofNat n⟩

def white : Colour := ofNat 0xffffff

def black : Colour := ofNat 0

def grey : Colour := ofNat 0x808080

/-- Two hexadecimal digits. -/
def byteText (b : UInt8) : List Char := [(b.toNat / 16).digitChar, (b.toNat % 16).digitChar]

/-- A number sign and six hexadecimal digits. -/
def text (c : Colour) : String :=
  String.ofList ('#' :: byteText c.red ++ byteText c.green ++ byteText c.blue)

example : (ofNat 0xd95f02).text = "#d95f02" := by decide +kernel

/-- The colour of hexadecimal digits, one or two for each component. -/
def ofDigits? (digits : List Nat) : Option Colour :=
  let byte := fun x y => UInt8.ofNat (16 * x + y)
  match digits with
  | [r, g, b] | [r, g, b, _] => some ⟨byte r r, byte g g, byte b b⟩
  | [r, s, g, h, b, c] | [r, s, g, h, b, c, _, _] => some ⟨byte r s, byte g h, byte b c⟩
  | _ => none

/-! ## 2. Names -/

/-- The colours with a letter for a name. -/
def letters : List (String × Nat) :=
  [("b", 0x0000ff), ("g", 0x008000), ("r", 0xff0000), ("c", 0x00bfbf), ("m", 0xbf00bf),
   ("y", 0xbfbf00), ("k", 0x000000), ("w", 0xffffff)]

/-- The colours that curves take in turn. -/
def turns : List (String × Nat) :=
  [("tab:blue", 0x1f77b4), ("tab:orange", 0xff7f0e), ("tab:green", 0x2ca02c),
   ("tab:red", 0xd62728), ("tab:purple", 0x9467bd), ("tab:brown", 0x8c564b),
   ("tab:pink", 0xe377c2), ("tab:gray", 0x7f7f7f), ("tab:olive", 0xbcbd22),
   ("tab:cyan", 0x17becf)]

/-- The first colour of the turn. -/
def first : Colour := ofNat 0x1f77b4

/-- The names of colours in common use, and for no colour. -/
def names : List (String × Nat) :=
  [("aliceblue", 0xf0f8ff), ("antiquewhite", 0xfaebd7), ("aqua", 0x00ffff),
   ("aquamarine", 0x7fffd4), ("azure", 0xf0ffff), ("beige", 0xf5f5dc), ("bisque", 0xffe4c4),
   ("black", 0x000000), ("blanchedalmond", 0xffebcd), ("blue", 0x0000ff),
   ("blueviolet", 0x8a2be2), ("brown", 0xa52a2a), ("burlywood", 0xdeb887),
   ("cadetblue", 0x5f9ea0), ("chartreuse", 0x7fff00), ("chocolate", 0xd2691e),
   ("coral", 0xff7f50), ("cornflowerblue", 0x6495ed), ("cornsilk", 0xfff8dc),
   ("crimson", 0xdc143c), ("cyan", 0x00ffff), ("darkblue", 0x00008b), ("darkcyan", 0x008b8b),
   ("darkgoldenrod", 0xb8860b), ("darkgray", 0xa9a9a9), ("darkgreen", 0x006400),
   ("darkgrey", 0xa9a9a9), ("darkkhaki", 0xbdb76b), ("darkmagenta", 0x8b008b),
   ("darkolivegreen", 0x556b2f), ("darkorange", 0xff8c00), ("darkorchid", 0x9932cc),
   ("darkred", 0x8b0000), ("darksalmon", 0xe9967a), ("darkseagreen", 0x8fbc8f),
   ("darkslateblue", 0x483d8b), ("darkslategray", 0x2f4f4f), ("darkslategrey", 0x2f4f4f),
   ("darkturquoise", 0x00ced1), ("darkviolet", 0x9400d3), ("deeppink", 0xff1493),
   ("deepskyblue", 0x00bfff), ("dimgray", 0x696969), ("dimgrey", 0x696969),
   ("dodgerblue", 0x1e90ff), ("firebrick", 0xb22222), ("floralwhite", 0xfffaf0),
   ("forestgreen", 0x228b22), ("fuchsia", 0xff00ff), ("gainsboro", 0xdcdcdc),
   ("ghostwhite", 0xf8f8ff), ("gold", 0xffd700), ("goldenrod", 0xdaa520), ("gray", 0x808080),
   ("green", 0x008000), ("greenyellow", 0xadff2f), ("grey", 0x808080), ("honeydew", 0xf0fff0),
   ("hotpink", 0xff69b4), ("indianred", 0xcd5c5c), ("indigo", 0x4b0082), ("ivory", 0xfffff0),
   ("khaki", 0xf0e68c), ("lavender", 0xe6e6fa), ("lavenderblush", 0xfff0f5),
   ("lawngreen", 0x7cfc00), ("lemonchiffon", 0xfffacd), ("lightblue", 0xadd8e6),
   ("lightcoral", 0xf08080), ("lightcyan", 0xe0ffff), ("lightgoldenrodyellow", 0xfafad2),
   ("lightgray", 0xd3d3d3), ("lightgreen", 0x90ee90), ("lightgrey", 0xd3d3d3),
   ("lightpink", 0xffb6c1), ("lightsalmon", 0xffa07a), ("lightseagreen", 0x20b2aa),
   ("lightskyblue", 0x87cefa), ("lightslategray", 0x778899), ("lightslategrey", 0x778899),
   ("lightsteelblue", 0xb0c4de), ("lightyellow", 0xffffe0), ("lime", 0x00ff00),
   ("limegreen", 0x32cd32), ("linen", 0xfaf0e6), ("magenta", 0xff00ff), ("maroon", 0x800000),
   ("mediumaquamarine", 0x66cdaa), ("mediumblue", 0x0000cd), ("mediumorchid", 0xba55d3),
   ("mediumpurple", 0x9370db), ("mediumseagreen", 0x3cb371), ("mediumslateblue", 0x7b68ee),
   ("mediumspringgreen", 0x00fa9a), ("mediumturquoise", 0x48d1cc),
   ("mediumvioletred", 0xc71585), ("midnightblue", 0x191970), ("mintcream", 0xf5fffa),
   ("mistyrose", 0xffe4e1), ("moccasin", 0xffe4b5), ("navajowhite", 0xffdead),
   ("navy", 0x000080), ("none", 0x000000), ("oldlace", 0xfdf5e6), ("olive", 0x808000),
   ("olivedrab", 0x6b8e23), ("orange", 0xffa500), ("orangered", 0xff4500), ("orchid", 0xda70d6),
   ("palegoldenrod", 0xeee8aa), ("palegreen", 0x98fb98), ("paleturquoise", 0xafeeee),
   ("palevioletred", 0xdb7093), ("papayawhip", 0xffefd5), ("peachpuff", 0xffdab9),
   ("peru", 0xcd853f), ("pink", 0xffc0cb), ("plum", 0xdda0dd), ("powderblue", 0xb0e0e6),
   ("purple", 0x800080), ("rebeccapurple", 0x663399), ("red", 0xff0000),
   ("rosybrown", 0xbc8f8f), ("royalblue", 0x4169e1), ("saddlebrown", 0x8b4513),
   ("salmon", 0xfa8072), ("sandybrown", 0xf4a460), ("seagreen", 0x2e8b57),
   ("seashell", 0xfff5ee), ("sienna", 0xa0522d), ("silver", 0xc0c0c0), ("skyblue", 0x87ceeb),
   ("slateblue", 0x6a5acd), ("slategray", 0x708090), ("slategrey", 0x708090),
   ("snow", 0xfffafa), ("springgreen", 0x00ff7f), ("steelblue", 0x4682b4), ("tan", 0xd2b48c),
   ("teal", 0x008080), ("thistle", 0xd8bfd8), ("tomato", 0xff6347), ("turquoise", 0x40e0d0),
   ("violet", 0xee82ee), ("wheat", 0xf5deb3), ("white", 0xffffff), ("whitesmoke", 0xf5f5f5),
   ("yellow", 0xffff00), ("yellowgreen", 0x9acd32), ("tab:grey", 0x7f7f7f)]

/-- The colour of a name.  A name of several letters may have capitals in it. -/
def named? (s : String) : Option Colour :=
  (letters.lookup s <|> (turns ++ names).lookup (String.ofList (s.toList.map Char.toLower))).map
    ofNat

/-- The colour at a place in the turn, which begins again at its end. -/
def placed? (digits : List Char) : Option Colour :=
  if digits.isEmpty || !digits.all Char.isDigit then none
  else
    let place := digits.foldl (fun n c => 10 * n + (c.toNat - '0'.toNat)) 0
    turns[place % turns.length]?.map fun t => ofNat t.2

/-! ## 3. Numbers -/

variable {α : Type} [Scalar α]

/-- The nearest whole number to a number that is not negative; of two the even one. -/
def nearest (x : α) : Nat :=
  match Scalar.truncate x with
  | some n =>
    let rest := x - (n : α)
    if 0.5 < rest || (rest == 0.5 && n % 2 = 1) then (n + 1).toNat else n.toNat
  | none => 0

/-- A component by a number of the unit interval. -/
def component? (x : α) : Option UInt8 :=
  if 0 ≤ x && x ≤ 1 then some (.ofNat (nearest (x * 255.0))) else none

/-- A component of a list; texts do not count as numbers there. -/
def listed? (d : Document α) : Option UInt8 :=
  match d with
  | .text _ => none
  | d => d.number.toOption.bind component?

/-- The colour that a text asks for. -/
def ofText? (α : Type) [Scalar α] (s : String) : Option Colour :=
  match s.toList with
  | '#' :: digits => (digits.mapM Text.hexDigit?).bind ofDigits?
  | 'C' :: digits => placed? digits <|> named? s
  | _ => named? s <|> do
    let n ← Decimal.Numeral.ofText? s
    let b ← component? (Scalar.ofNumeral n : α)
    return ⟨b, b, b⟩

/-- The colour that a document asks for.  Null leaves it to the turn. -/
def read (d : Document α) : Except (Fault α) Colour :=
  let asked := match d with
    | .null => some first
    | .text s => ofText? α s
    | .list [r, g, b] | .list [r, g, b, _] => do
      return ⟨← listed? r, ← listed? g, ← listed? b⟩
    | _ => none
  match asked with
  | some c => .ok c
  | none => .error .noColour

end Colour
end Graded
