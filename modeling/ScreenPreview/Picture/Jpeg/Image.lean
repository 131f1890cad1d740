import ScreenPreview.Picture.Jpeg.Tables
import ScreenPreview.Picture.Jpeg.Transform

/-! Baseline pictures: three components at full resolution, in blocks of eight by eight. -/
namespace ScreenPreview.Picture.Jpeg

def nearest16 (n : Nat) : UInt8 := ((n + 0x7FFF) >>> 16).toUInt8

/-- The luminance and the two chrominances of a colour. The weights are 0.299, 0.587 and 0.114 for
the luminance, and for a chrominance a half of its colour less the two others in the proportion of
their luminances, on a scale of `2 ^ 16`; a chrominance of zero is at 128. -/
def components (red green blue : UInt8) : UInt8 × UInt8 × UInt8 :=
  let r := red.toNat
  let g := green.toNat
  let b := blue.toNat
  let middle := 0x800000
  (nearest16 (19595 * r + 38469 * g + 7471 * b),
    nearest16 (middle + 32768 * b - (11058 * r + 21710 * g)),
    nearest16 (middle + 32768 * r - (27439 * g + 5329 * b)))

theorem components_grey (level : UInt8) : components level level level = (level, 128, 128) := by
  have bound := level.toNat_lt
  have luminance : 19595 * level.toNat + 38469 * level.toNat + 7471 * level.toNat + 0x7FFF =
      65536 * level.toNat + (0x7FFF - level.toNat) := by omega
  have blueness : 0x800000 + 32768 * level.toNat - (11058 * level.toNat + 21710 * level.toNat) +
      0x7FFF = 65536 * 128 + 0x7FFF := by omega
  have redness : 0x800000 + 32768 * level.toNat - (27439 * level.toNat + 5329 * level.toNat) +
      0x7FFF = 65536 * 128 + 0x7FFF := by omega
  have small : (0x7FFF - level.toNat) / 65536 = 0 := by omega
  simp only [components, nearest16, Nat.shiftRight_eq_div_pow, Nat.reducePow, luminance, blueness,
    redness, Nat.mul_add_div, Nat.zero_lt_succ, small]
  simp

structure Image where
  width : Nat
  height : Nat
  colours : Array UInt8

namespace Image

/-- The components at a place; those of the nearest pixel outside the picture. -/
def sample (i : Image) (x y : Nat) : UInt8 × UInt8 × UInt8 :=
  let start := 3 * (min y (i.height - 1) * i.width + min x (i.width - 1))
  components (i.colours.getD start 0) (i.colours.getD (start + 1) 0) (i.colours.getD (start + 2) 0)

def block (i : Image) (x y : Nat) : List (UInt8 × UInt8 × UInt8) :=
  (List.range 64).map fun k => i.sample (x + k % 8) (y + k / 8)

def blockPlaces (i : Image) : List (Nat × Nat) :=
  (List.range ((i.height + 7) / 8)).flatMap fun y =>
    (List.range ((i.width + 7) / 8)).map fun x => (8 * x, 8 * y)

end Image

def divide (x : Int) (divisor : Nat) : Int :=
  let eighth := x.tdiv 8
  let size := (2 * eighth.natAbs + divisor) / (2 * divisor)
  if eighth < 0 then -size else size

def coefficients (divisors : List Nat) (samples : List UInt8) : List Int :=
  let divided := (List.zipWith divide (transform samples) divisors).toArray
  zigzag.map fun place => divided.getD place 0

structure Coding where
  divisors : List Nat
  first : Codebook
  rest : Codebook

structure Progress where
  bits : BitString
  luminance : Int
  blueness : Int
  redness : Int

def Coding.put (c : Coding) (before : Int) (samples : List UInt8) (bits : BitString) :
    Int × BitString :=
  let values := coefficients c.divisors samples
  (values.headD 0, bits.putAll (blockWords c.first c.rest before values))

def Progress.add (luminance chrominance : Coding) (p : Progress)
    (samples : List (UInt8 × UInt8 × UInt8)) : Progress :=
  let (y, bits) := luminance.put p.luminance (samples.map (·.1)) p.bits
  let (b, bits) := chrominance.put p.blueness (samples.map (·.2.1)) bits
  let (r, bits) := chrominance.put p.redness (samples.map (·.2.2)) bits
  ⟨bits, y, b, r⟩

def Image.scan (luminance chrominance : Coding) (i : Image) : Bytes :=
  let add (p : Progress) (place : Nat × Nat) : Progress :=
    p.add luminance chrominance (i.block place.1 place.2)
  (i.blockPlaces.foldl add ⟨.empty, 0, 0, 0⟩).bits.close

def short (n : Nat) : Bytes := [(n / 256).toUInt8, n.toUInt8]

def segment (marker : UInt8) (data : Bytes) : Bytes :=
  0xFF :: marker :: short (data.length + 2) ++ data

def opening : Bytes := Bytes.ofText "JFIF" ++ [0, 1, 2, 0, 0, 1, 0, 1, 0, 0]

def frame (i : Image) : Bytes :=
  8 :: short i.height ++ short i.width ++ [3, 1, 0x11, 0, 2, 0x11, 1, 3, 0x11, 1]

def divisorTable (number : UInt8) (divisors : List Nat) : Bytes :=
  number :: (inZigzag divisors).map Nat.toUInt8

def codeTable (number : UInt8) (t : CodeTable) : Bytes :=
  number :: t.counts.map Nat.toUInt8 ++ t.symbols.map Nat.toUInt8

def scanHeader : Bytes := [3, 1, 0x00, 2, 0x11, 3, 0x11, 0, 63, 0]

def luminanceBooks : Codebook × Codebook := (luminanceFirst.book, luminanceRest.book)

def chrominanceBooks : Codebook × Codebook := (chrominanceFirst.book, chrominanceRest.book)

def Image.toBytes (quality : Nat) (i : Image) : Bytes :=
  let luminance := scaled quality luminanceDivisors
  let chrominance := scaled quality chrominanceDivisors
  [0xFF, 0xD8] ++ segment 0xE0 opening ++ segment 0xC0 (frame i) ++
    segment 0xDB (divisorTable 0 luminance) ++ segment 0xDB (divisorTable 1 chrominance) ++
    segment 0xC4 (codeTable 0x00 luminanceFirst) ++ segment 0xC4 (codeTable 0x10 luminanceRest) ++
    segment 0xC4 (codeTable 0x01 chrominanceFirst) ++
    segment 0xC4 (codeTable 0x11 chrominanceRest) ++ segment 0xDA scanHeader ++
    i.scan ⟨luminance, luminanceBooks.1, luminanceBooks.2⟩
      ⟨chrominance, chrominanceBooks.1, chrominanceBooks.2⟩ ++ [0xFF, 0xD9]

end ScreenPreview.Picture.Jpeg
