import ScreenPreview.Picture.Pixels
import ScreenPreview.Screen.Geometry

/-! A moving test pattern. Every frame is painted over the one before. -/
namespace ScreenPreview.Server

structure Pattern where
  phase : UInt32 := 0
  canvas : Array UInt8 := #[]
  deriving DecidableEq, Repr

namespace Pattern

def pixel (phase : UInt32) (x y : Nat) : Bytes :=
  [(x + phase.toNat).toUInt8, (y + phase.toNat).toUInt8, (x + y).toUInt8, 0xFF]

def stretch (canvas : Array UInt8) (size : Nat) : Array UInt8 :=
  if size ≤ canvas.size then canvas.shrink size
  else canvas ++ Array.replicate (size - canvas.size) 0

def paint (canvas : Array UInt8) (first : Nat) : Bytes → Array UInt8
  | [] => canvas
  | b :: rest => paint (canvas.setIfInBounds first b) (first + 1) rest

def paintAll (phase : UInt32) (width : Nat) (canvas : Array UInt8) : Array UInt8 :=
  (List.range (canvas.size / 4)).foldl
    (fun canvas i => paint canvas (4 * i) (pixel phase (i % width) (i / width))) canvas

def draw (p : Pattern) (width height : Int32) : Bytes × Pattern :=
  let w := (max width 1).toNatClampNeg
  let h := (max height 1).toNatClampNeg
  let canvas := paintAll p.phase w (stretch p.canvas (w * h * 4))
  (canvas.toList, ⟨p.phase + 4, canvas⟩)

def drawAll (p : Pattern) : List Screen.Size → List Bytes
  | [] => []
  | s :: rest =>
    let (frame, p) := p.draw s.width s.height
    frame :: p.drawAll rest

def rate (asked : UInt8) : Nat := min (max asked.toNat 1) 60

def interval (asked : UInt8) : Nat := (2 * 1000000000 + rate asked) / (2 * rate asked)

end Pattern

end ScreenPreview.Server
