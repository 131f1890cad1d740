import ScreenPreview.Picture.Colour
import ScreenPreview.Picture.Jpeg.Image

/-! The encoder of the picture stream: baseline pictures at a quality that falls with the size. -/
namespace ScreenPreview.Picture

namespace Jpeg

def longestSide : Nat := 65535

def ofColours (width height quality : Nat) (colours : Bytes) : Except Failure Bytes :=
  if longestSide < width ∨ longestSide < height then
    .error (.encoding (.sideTooLong width height))
  else .ok (Image.toBytes quality ⟨width, height, colours.toArray⟩)

def encode : Encoder := fun frame => do
  frame.check
  let quality := qualityFor frame.width frame.height
  let picture ← ofColours frame.width.toNatClampNeg frame.height.toNatClampNeg quality.toNat
    frame.colours
  pure (quality, picture)

structure Counting where
  count : Nat := 0
  rgb : Array UInt8 := #[]
  deriving DecidableEq, Repr

def Counting.gather (c : Counting) (frame : Pixels) : Counting :=
  { c with rgb := frame.format.addColours (c.rgb.shrink 0) (frame.data.take frame.expectedLength) }

def Counting.compress (frame : Pixels) (c : Counting) :
    Except Failure (UInt8 × Bytes) × Counting :=
  let quality := qualityFor frame.width frame.height
  match ofColours frame.width.toNatClampNeg frame.height.toNatClampNeg quality.toNat
    c.rgb.toList with
  | .error failure => (.error failure, c)
  | .ok picture =>
    if picture.isEmpty then (.error (.encoding .noOutput), c)
    else (.ok (quality, picture), { c with count := c.count + 1 })

def Counting.encode (c : Counting) (frame : Pixels) :
    Except Failure (UInt8 × Bytes) × Counting :=
  match frame.check with
  | .error failure => (.error failure, c)
  | .ok () => (c.gather frame).compress frame

end Jpeg

end ScreenPreview.Picture
