/-!
The cosine transform of a block of eight by eight samples, in whole numbers. The rows keep two bits
of the scale, which the columns give up again; the result is eight times the true transform.
-/
namespace ScreenPreview.Picture.Jpeg

def descale (bits : Nat) (even odd : Int) (values : List Int) : List Int :=
  values.mapIdx fun k x => (x + if k % 2 = 0 then even else odd) >>> bits

/-- The eight frequencies of eight values, scaled by `2 ^ 13`. The factors are cosines of
multiples of a sixteenth of the half circle, and sums of them, on that scale. -/
def frequencies : List Int → List Int
  | [s0, s1, s2, s3, s4, s5, s6, s7] =>
    let outer := s0 + s7 + (s3 + s4)
    let inner := s1 + s6 + (s2 + s5)
    let a := s0 + s7 - (s3 + s4)
    let b := s1 + s6 - (s2 + s5)
    let even := (a + b) * 4433
    let d0 := s0 - s7
    let d1 := s1 - s6
    let d2 := s2 - s5
    let d3 := s3 - s4
    let odd := (d0 + d1 + d2 + d3) * 9633
    let p := odd - (d0 + d2) * 3196
    let q := odd - (d1 + d3) * 16069
    let far := (d0 + d3) * 7373
    let near := (d1 + d2) * 20995
    [(outer + inner) * 8192, d0 * 12299 - far + p, even + a * 6270, d1 * 25172 - near + q,
      (outer - inner) * 8192, d2 * 16819 - near + p, even - b * 15137, d3 * 2446 - far + q]
  | other => other

def rows : List Int → List (List Int)
  | a :: b :: c :: d :: e :: f :: g :: h :: rest => [a, b, c, d, e, f, g, h] :: rows rest
  | _ => []

def columns (rows : List (List Int)) : List (List Int) :=
  (List.range 8).map fun k => rows.map fun row => row.getD k 0

def transform (samples : List UInt8) : List Int :=
  let centred := samples.map fun s => (s.toNat : Int) - 128
  let across := (rows centred).map fun row => descale 11 0x400 0x400 (frequencies row)
  let down := (columns across).map fun column => descale 15 0x4000 0x400 (frequencies column)
  (columns down).flatten

end ScreenPreview.Picture.Jpeg
