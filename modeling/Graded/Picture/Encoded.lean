/-
# Pictures as files

A picture as a portable network graphic.  The points are written row by row, each as three bytes,
and are stored without being compressed, in blocks.

The format protects its contents twice: every chunk ends with the remainder of a division of
polynomials, and the stored rows end with two running sums.
-/
import Graded.Picture

namespace Graded
namespace Picture

/-! ## 1. Numbers as bytes -/

/-- The four bytes of a number, the highest first. -/
def fourBytes (n : UInt32) : ByteArray :=
  ⟨#[(n >>> 24).toUInt8, (n >>> 16).toUInt8, (n >>> 8).toUInt8, n.toUInt8]⟩

/-- The two bytes of a number, the lowest first. -/
def twoBytes (n : UInt16) : ByteArray := ⟨#[n.toUInt8, (n >>> 8).toUInt8]⟩

/-! ## 2. Check sums -/

/-- One step of the division: a bit that falls out takes the divisor with it. -/
def divideBit (r : UInt32) : UInt32 :=
  if r &&& 1 == 1 then (r >>> 1) ^^^ 0xEDB88320 else r >>> 1

/-- The division of one byte. -/
def divideByte (r : UInt32) (b : UInt8) : UInt32 :=
  (List.range 8).foldl (fun r _ => divideBit r) (r ^^^ b.toUInt32)

/-- The remainder at the end of a chunk. -/
def remainder (bytes : ByteArray) : UInt32 := bytes.foldl divideByte 0xFFFFFFFF ^^^ 0xFFFFFFFF

/-- The two running sums of stored bytes: of the bytes, and of the sums so far. -/
def sums (bytes : ByteArray) : UInt32 :=
  let (a, b) := bytes.foldl (fun (a, b) x =>
    let a := (a + x.toUInt32) % 65521
    (a, (b + a) % 65521)) ((1, 0) : UInt32 × UInt32)
  (b <<< 16) ||| a

/-! ## 3. The file -/

/-- The greatest number of bytes in a block. -/
def blockSize : Nat := 65535

/-- Bytes in blocks.  A block says whether it is the last, and its size twice. -/
def stored (bytes : ByteArray) : ByteArray :=
  let blocks := (bytes.size + blockSize - 1) / blockSize
  (List.range blocks).foldl (fun out i =>
    let block := bytes.extract (i * blockSize) ((i + 1) * blockSize)
    let size := UInt16.ofNat block.size
    out.push (if i + 1 = blocks then 1 else 0) ++ twoBytes size ++ twoBytes (size ^^^ 0xFFFF) ++
      block) ByteArray.empty

/-- A chunk: its size, its name, what it holds, and the remainder of the last two. -/
def chunk (name : String) (content : ByteArray) : ByteArray :=
  let body := name.toUTF8 ++ content
  fourBytes (UInt32.ofNat content.size) ++ body ++ fourBytes (remainder body)

/-- One row of points, which begins with a byte that says that they are written as they are. -/
def row (p : Picture) (y : Nat) : ByteArray :=
  (List.range p.width).foldl (fun out x =>
    let c := p.colourAt x y
    ((out.push c.red).push c.green).push c.blue) (ByteArray.empty.push 0)

/-- All rows. -/
def rows (p : Picture) : ByteArray :=
  (List.range p.height).foldl (fun out y => out ++ p.row y) ByteArray.empty

/-- The bytes that every such file begins with. -/
def signature : ByteArray := ⟨#[137, 80, 78, 71, 13, 10, 26, 10]⟩

/-- What is said before the points: the size, eight bits a component, three components. -/
def header (p : Picture) : ByteArray :=
  fourBytes (UInt32.ofNat p.width) ++ fourBytes (UInt32.ofNat p.height) ++ ⟨#[8, 2, 0, 0, 0]⟩

/-- A picture as a file. -/
def encoded (p : Picture) : ByteArray :=
  let points := p.rows
  signature ++ chunk "IHDR" p.header ++
    chunk "IDAT" (⟨#[0x78, 0x01]⟩ ++ stored points ++ fourBytes (sums points)) ++
    chunk "IEND" ByteArray.empty

end Picture
end Graded
