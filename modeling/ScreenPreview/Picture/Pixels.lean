import ScreenPreview.Bytes
import ScreenPreview.Failure

/-! Rendered frames, which may hold more bytes than their size takes. -/
namespace ScreenPreview.Picture

inductive Format where
  | rgba
  | bgra
  deriving DecidableEq, Repr

structure Pixels where
  data : Bytes
  width : Int32
  height : Int32
  format : Format := .rgba
  timestamp : Int := 0
  change : Int32 := 0
  deriving DecidableEq, Repr

namespace Pixels

def pixelSize : Nat := 4

def count (p : Pixels) : Nat :=
  if p.width < 1 || p.height < 1 then 0
  else p.width.toNatClampNeg * p.height.toNatClampNeg

def expectedLength (p : Pixels) : Nat := p.count * pixelSize

def check (p : Pixels) : Except Failure Unit :=
  if p.width < 1 || p.height < 1 then .error (.frameSize p.width p.height)
  else if p.data.isEmpty then .error .noPixels
  else if p.data.length < p.expectedLength then
    .error (.shortPixels p.expectedLength p.data.length)
  else .ok ()

def trimmed (p : Pixels) : Pixels := { p with data := p.data.take p.expectedLength }

end Pixels

def qualityFor (width height : Int32) : UInt8 :=
  let pixels := width.toNatClampNeg * height.toNatClampNeg
  if pixels ≤ 100000 then 100
  else if pixels ≤ 300000 then 90
  else if pixels ≤ 500000 then 85
  else 75

abbrev Encoder := Pixels → Except Failure (UInt8 × Bytes)

end ScreenPreview.Picture
