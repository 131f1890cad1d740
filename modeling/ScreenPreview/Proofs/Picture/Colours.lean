import Mathlib.Data.List.Basic
import ScreenPreview.Picture.Jpeg
import ScreenPreview.Proofs.Picture.Checks

/-!
What the codec is given of a frame.

An encoder gathers the colours of a frame where it gathered those of the frame before. What it hands
on are red, green and blue of every pixel and nothing else: not the opacity, not the bytes beyond
the size, nothing of an earlier frame, and the order of the channels makes no difference
(`Jpeg.Counting.afterAll_colours`).
-/
namespace ScreenPreview.Picture

/-! ### Channels -/

namespace Pixels

def red? (p : Pixels) (i : Nat) : Option UInt8 :=
  match p.format with
  | .rgba => p.data[4 * i]?
  | .bgra => p.data[4 * i + 2]?

def green? (p : Pixels) (i : Nat) : Option UInt8 := p.data[4 * i + 1]?

def blue? (p : Pixels) (i : Nat) : Option UInt8 :=
  match p.format with
  | .rgba => p.data[4 * i + 2]?
  | .bgra => p.data[4 * i]?

/-- The two frames have one size and show the same colours there. -/
structure SameColours (p q : Pixels) : Prop where
  width : p.width = q.width
  height : p.height = q.height
  red : ∀ i < p.count, p.red? i = q.red? i
  green : ∀ i < p.count, p.green? i = q.green? i
  blue : ∀ i < p.count, p.blue? i = q.blue? i

def exchange : Bytes → Bytes
  | a :: b :: c :: d :: rest => c :: b :: a :: d :: exchange rest
  | rest => rest

def exchanged (p : Pixels) : Pixels :=
  { p with
    data := exchange p.data
    format := match p.format with
      | .rgba => .bgra
      | .bgra => .rgba }

variable {p q : Pixels}

theorem count_congr (width : p.width = q.width) (height : p.height = q.height) :
    p.count = q.count := by
  rw [count, count, width, height]

theorem colours_eq (p : Pixels) :
    p.colours = (List.range p.count).flatMap fun i =>
      [(p.red? i).getD 0, (p.green? i).getD 0, (p.blue? i).getD 0] := by
  unfold colours red? green? blue? pixelSize
  cases p.format <;> simp [Format.colourPlaces]

theorem SameColours.colours_eq (same : p.SameColours q) : p.colours = q.colours := by
  rw [p.colours_eq, q.colours_eq, ← count_congr same.width same.height]
  refine List.flatMap_congr fun i member => ?_
  have inside := List.mem_range.mp member
  rw [same.red i inside, same.green i inside, same.blue i inside]

/-- Neither the opacity nor a byte beyond the size is one of the colours. -/
theorem sameColours_of_bytes (width : p.width = q.width) (height : p.height = q.height)
    (format : p.format = q.format)
    (bytes : ∀ place < 4 * p.count, place % 4 ≠ 3 → p.data[place]? = q.data[place]?) :
    p.SameColours q := by
  have channel (i k : Nat) (inside : i < p.count) (colour : k < 3) :
      p.data[4 * i + k]? = q.data[4 * i + k]? := bytes _ (by omega) (by omega)
  refine ⟨width, height, fun i inside => ?_, fun i inside => ?_, fun i inside => ?_⟩
  · rw [red?, red?, format, ← Nat.add_zero (4 * i), channel i 0 inside (by decide),
      channel i 2 inside (by decide)]
  · exact channel i 1 inside (by decide)
  · rw [blue?, blue?, format, ← Nat.add_zero (4 * i), channel i 0 inside (by decide),
      channel i 2 inside (by decide)]

theorem length_exchange : ∀ b : Bytes, (exchange b).length = b.length
  | _ :: _ :: _ :: _ :: rest => by simp [exchange, length_exchange rest]
  | [] | [_] | [_, _] | [_, _, _] => rfl

theorem getElem?_exchange {b : Bytes} {i : Nat} (room : 4 * i + 3 < b.length) :
    (exchange b)[4 * i]? = b[4 * i + 2]? ∧ (exchange b)[4 * i + 1]? = b[4 * i + 1]? ∧
      (exchange b)[4 * i + 2]? = b[4 * i]? := by
  induction i generalizing b with
  | zero =>
    match b, room with
    | a :: b :: c :: d :: rest, _ => exact ⟨rfl, rfl, rfl⟩
  | succ i ih =>
    match b, room with
    | a :: b :: c :: d :: rest, room => exact ih (by simp only [List.length_cons] at room; omega)

theorem check_exchanged (valid : p.check = .ok ()) : p.exchanged.check = .ok () := by
  obtain ⟨width, height, some, enough⟩ := check_eq_ok_iff.mp valid
  have length : p.exchanged.data.length = p.data.length := length_exchange p.data
  refine check_eq_ok_iff.mpr ⟨width, height, ?_, ?_⟩
  · rwa [← List.length_pos_iff, length, List.length_pos_iff]
  · rw [length]
    exact enough

theorem sameColours_exchanged (valid : p.check = .ok ()) : p.SameColours p.exchanged := by
  have enough := four_mul_count_le valid
  have bytes (i : Nat) (inside : i < p.count) :=
    getElem?_exchange (show 4 * i + 3 < p.data.length by omega)
  refine ⟨rfl, rfl, fun i inside => ?_, fun i inside => ?_, fun i inside => ?_⟩
  · obtain ⟨first, -, third⟩ := bytes i inside
    unfold red? exchanged
    cases p.format
    · exact third.symm
    · exact first.symm
  · exact (bytes i inside).2.1.symm
  · obtain ⟨first, -, third⟩ := bytes i inside
    unfold blue? exchanged
    cases p.format
    · exact first.symm
    · exact third.symm

theorem exists_channels (valid : p.check = .ok ()) {i : Nat} (inside : i < p.count) :
    ∃ r g b, p.red? i = some r ∧ p.green? i = some g ∧ p.blue? i = some b := by
  have enough := four_mul_count_le valid
  have there (place : Nat) (short : place < 4) : ∃ byte, p.data[4 * i + place]? = some byte :=
    ⟨_, List.getElem?_eq_getElem (by omega)⟩
  obtain ⟨a, first⟩ := there 0 (by decide)
  obtain ⟨b, second⟩ := there 1 (by decide)
  obtain ⟨c, third⟩ := there 2 (by decide)
  rw [Nat.add_zero] at first
  unfold red? green? blue?
  cases p.format with
  | rgba => exact ⟨a, b, c, first, second, third⟩
  | bgra => exact ⟨c, b, a, third, second, first⟩

theorem getElem?_flatMap_range {f : Nat → Bytes} {length n i place : Nat}
    (pieces : ∀ i, (f i).length = length) (inside : i < n) (short : place < length) :
    ((List.range n).flatMap f)[length * i + place]? = (f i)[place]? := by
  induction n with
  | zero => omega
  | succ n ih =>
    have before : ((List.range n).flatMap f).length = length * n := by
      simp [List.length_flatMap, pieces, List.map_const', Nat.mul_comm]
    rw [List.range_succ, List.flatMap_append, List.flatMap_singleton]
    rcases Nat.lt_or_eq_of_le (Nat.le_of_lt_succ inside) with earlier | rfl
    · have room : length * (i + 1) ≤ length * n := Nat.mul_le_mul_left length earlier
      rw [List.getElem?_append_left (by rw [before]; rw [Nat.mul_succ] at room; omega)]
      exact ih earlier
    · rw [List.getElem?_append_right (by omega), before, Nat.add_sub_cancel_left]

theorem getElem?_colours (valid : p.check = .ok ()) {i : Nat} (inside : i < p.count) :
    p.colours[3 * i]? = p.red? i ∧ p.colours[3 * i + 1]? = p.green? i ∧
      p.colours[3 * i + 2]? = p.blue? i := by
  obtain ⟨r, g, b, red, green, blue⟩ := exists_channels valid inside
  have colour {place : Nat} (short : place < 3) :
      p.colours[3 * i + place]? = [r, g, b][place]? := by
    have three (i : Nat) :
        [(p.red? i).getD 0, (p.green? i).getD 0, (p.blue? i).getD 0].length = 3 := rfl
    rw [p.colours_eq, getElem?_flatMap_range three inside short, red, green, blue]
    rfl
  rw [red, green, blue]
  exact ⟨colour (by decide : 0 < 3), colour (by decide : 1 < 3), colour (by decide : 2 < 3)⟩

end Pixels

/-! ### Gathering -/

theorem Format.toList_addColours (f : Format) (rgb : Array UInt8) {data : Bytes} {n : Nat}
    (enough : 4 * n ≤ data.length) :
    (f.addColours rgb (data.take (4 * n))).toList = rgb.toList ++
      (List.range n).flatMap fun i =>
        f.colour (data.getD (4 * i) 0) (data.getD (4 * i + 1) 0) (data.getD (4 * i + 2) 0) := by
  -- One pixel more stands behind those that were gathered, so the induction is over any of them.
  induction n generalizing rgb data with
  | zero => simp [addColours]
  | succ n ih =>
    match data, enough with
    | a :: b :: c :: d :: rest, enough =>
      have enough : 4 * n ≤ rest.length := by
        simp only [List.length_cons] at enough
        omega
      have first : (a :: b :: c :: d :: rest).take (4 * (n + 1)) =
          a :: b :: c :: d :: rest.take (4 * n) := by
        simp [Nat.mul_succ]
      rw [first, addColours, ih _ enough, List.range_succ_eq_map, List.flatMap_cons,
        List.flatMap_map, Array.toList_appendList, List.append_assoc]
      congr 1

theorem Jpeg.Counting.toList_gather (c : Counting) {p : Pixels} (valid : p.check = .ok ()) :
    (c.gather p).rgb.toList = p.colours := by
  have length : p.expectedLength = 4 * p.count := Nat.mul_comm _ _
  have cleared : (c.rgb.shrink 0).toList = [] := by simp
  rw [gather, length, p.format.toList_addColours _ (Pixels.four_mul_count_le valid), cleared,
    List.nil_append]
  unfold Pixels.colours
  cases p.format <;> simp [Format.colour, Format.colourPlaces, Pixels.pixelSize]

namespace Jpeg

theorem ofColours_ne_nil {width height quality : Nat} {colours picture : Bytes}
    (made : ofColours width height quality colours = .ok picture) : picture ≠ [] := by
  unfold ofColours at made
  split at made
  · cases made
  · cases made
    simp [Image.toBytes]

variable {p q : Pixels}

theorem Counting.encode_eq (c : Counting) (valid : p.check = .ok ()) :
    (c.encode p).1 = (ofColours p.width.toNatClampNeg p.height.toNatClampNeg
        (qualityFor p.width p.height).toNat p.colours).map (qualityFor p.width p.height, ·) ∧
      (c.encode p).2.rgb.toList = p.colours := by
  have gathered := c.toList_gather valid
  simp only [encode, compress, valid, gathered]
  split
  · next failed => simp [failed, gathered, Except.map]
  · next made => simp [made, ofColours_ne_nil made, gathered, Except.map]

theorem Counting.encode_eq_encode (c : Counting) (p : Pixels) :
    (c.encode p).1 = Jpeg.encode p := by
  cases check : p.check with
  | error failure => simp [encode, Jpeg.encode, check, bind, Except.bind]
  | ok _ =>
    rw [(c.encode_eq check).1]
    simp only [Jpeg.encode, check, bind, Except.bind]
    cases ofColours p.width.toNatClampNeg p.height.toNatClampNeg
      (qualityFor p.width p.height).toNat p.colours <;> rfl

/-! ### Runs -/

namespace Counting

def afterAll (frames : List Pixels) : Counting := frames.foldl (fun c p => (c.encode p).2) {}

/-- Each behind some other frames, the two frames are given to the codec in the same bytes and at
the same quality, and the same comes of them. -/
structure Alike (before others : List Pixels) (p q : Pixels) : Prop where
  colours : ((afterAll before).encode p).2.rgb = ((afterAll others).encode q).2.rgb
  quality : qualityFor p.width p.height = qualityFor q.width q.height
  result : ((afterAll before).encode p).1 = ((afterAll others).encode q).1

theorem alike_of_sameColours (before others : List Pixels) (valid : p.check = .ok ())
    (other_valid : q.check = .ok ()) (same : p.SameColours q) : Alike before others p q := by
  obtain ⟨result, given⟩ := (afterAll before).encode_eq valid
  obtain ⟨other_result, other_given⟩ := (afterAll others).encode_eq other_valid
  rw [← same.colours_eq] at other_result other_given
  rw [← same.width, ← same.height] at other_result
  refine ⟨Array.toList_inj.mp (given.trans other_given.symm), ?_, result.trans other_result.symm⟩
  rw [same.width, same.height]

/-- Whatever an encoder was given before: of a frame that passes its check the codec is given three
bytes for each pixel, which are its red, green and blue, at the quality for its size. So a frame of
the same size and colours comes to the same, whatever went before it: another opacity or other bytes
beyond the size make no difference, nor does the order of the channels. -/
theorem afterAll_colours (before : List Pixels) (valid : p.check = .ok ()) :
    let c := afterAll before
    let pixels := p.width.toNatClampNeg * p.height.toNatClampNeg
    let given := (c.encode p).2.rgb
    (c.encode p).1 = (ofColours p.width.toNatClampNeg p.height.toNatClampNeg
        (qualityFor p.width p.height).toNat given.toList).map (qualityFor p.width p.height, ·) ∧
    given.size = 3 * pixels ∧
    (∀ i < pixels, given[3 * i]? = p.red? i ∧ given[3 * i + 1]? = p.green? i ∧
      given[3 * i + 2]? = p.blue? i) ∧
    (∀ others q, q.check = .ok () → p.SameColours q → Alike before others p q) ∧
    (∀ others q, q.check = .ok () → p.width = q.width → p.height = q.height →
      p.format = q.format →
      (∀ place < 4 * pixels, place % 4 ≠ 3 → p.data[place]? = q.data[place]?) →
      Alike before others p q) ∧
    (∀ others, Alike before others p p.exchanged) := by
  intro c pixels given
  obtain ⟨width, height, -, -⟩ := Pixels.check_eq_ok_iff.mp valid
  have count : p.count = pixels := Pixels.count_of_sides width height
  obtain ⟨result, gathered⟩ := c.encode_eq valid
  have same (others : List Pixels) (q : Pixels) (other_valid : q.check = .ok ())
      (colours : p.SameColours q) : Alike before others p q :=
    alike_of_sameColours before others valid other_valid colours
  refine ⟨?_, ?_, ?_, same, ?_, ?_⟩
  · rw [gathered]
    exact result
  · rw [← Array.length_toList, gathered, Pixels.length_colours, count]
  · intro i inside
    have place := Pixels.getElem?_colours valid (count ▸ inside)
    rw [← gathered] at place
    simpa using place
  · intro others q other_valid width height format bytes
    rw [← count] at bytes
    exact same others q other_valid (Pixels.sameColours_of_bytes width height format bytes)
  · intro others
    exact same others _ (Pixels.check_exchanged valid) (Pixels.sameColours_exchanged valid)

theorem afterAll_colours_of_small_behind_large :
    let large : Pixels := { data := [1, 2, 3, 4, 5, 6, 7, 8], width := 2, height := 1 }
    let small : Pixels := { data := [7, 8, 9, 10, 11], width := 1, height := 1, format := .bgra }
    let other : Pixels := { data := [9, 8, 7, 0], width := 1, height := 1 }
    small.check = .ok () ∧ ((afterAll [large]).encode small).2.rgb = #[9, 8, 7] ∧
      Alike [large] [] small other := by
  intro large small other
  have valid : small.check = .ok () := by decide
  obtain ⟨-, size, channels, same, -⟩ := afterAll_colours [large] valid
  obtain ⟨red, green, blue⟩ := channels 0 (by decide)
  have colours : ((afterAll [large]).encode small).2.rgb = #[9, 8, 7] := by
    refine Array.ext_getElem? fun i => ?_
    match i with
    | 0 => exact red
    | 1 => exact green
    | 2 => exact blue
    | i + 3 =>
      have beyond : 3 ≤ i + 3 := Nat.le_add_left 3 i
      rw [Array.getElem?_eq_none (Nat.le_trans (Nat.le_of_eq size) beyond)]
      rfl
  refine ⟨valid, colours, same [] other (by decide) ⟨rfl, rfl, ?_, ?_, ?_⟩⟩
  all_goals decide

end Counting

end Jpeg

end ScreenPreview.Picture
