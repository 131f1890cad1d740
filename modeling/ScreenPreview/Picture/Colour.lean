import ScreenPreview.Picture.Pixels

/-! The colours of a frame: red, green and blue of every pixel, without the opacity. -/
namespace ScreenPreview.Picture

def Format.colourPlaces : Format → List Nat
  | rgba => [0, 1, 2]
  | bgra => [2, 1, 0]

def Format.colour : Format → UInt8 → UInt8 → UInt8 → Bytes
  | rgba, a, b, c => [a, b, c]
  | bgra, a, b, c => [c, b, a]

/-- Put red, green and blue of every pixel behind some bytes. Less than a pixel at the end has no
colour. -/
def Format.addColours (f : Format) (rgb : Array UInt8) : Bytes → Array UInt8
  | a :: b :: c :: _ :: rest => f.addColours (rgb ++ f.colour a b c) rest
  | _ => rgb

def Pixels.colours (p : Pixels) : Bytes :=
  let data := p.data.toArray
  (List.range p.count).flatMap fun i =>
    p.format.colourPlaces.map fun place => data.getD (pixelSize * i + place) 0

theorem Format.length_colourPlaces (f : Format) : f.colourPlaces.length = 3 := by cases f <;> rfl

theorem Pixels.length_colours (p : Pixels) : p.colours.length = 3 * p.count := by
  simp [colours, List.length_flatMap, Format.length_colourPlaces, List.map_const', Nat.mul_comm]

end ScreenPreview.Picture
