import ScreenPreview.Proofs.Picture.Checks
import ScreenPreview.Proofs.Screen.Sizes
import ScreenPreview.Server.Pattern

/-!
What the test pattern draws.

The frames are painted on one canvas, which is not cleared between them. Still a frame shows its
size and the number of frames before it and nothing else (`drawAll_pixels`): every byte of the
canvas is painted, and although the distance that the pattern has moved is kept in a word that
wraps, a colour is told by its last eight bits, which the wrap leaves as they are.
-/
namespace ScreenPreview.Server.Pattern

def pixelsAlong (side : Int32) : Nat := (max side.toInt 1).toNat

def numbersAt (frame : Bytes) (width x y : Nat) : List Nat :=
  ((frame.drop (4 * (y * width + x))).take 4).map UInt8.toNat

def afterAll (p : Pattern) (sizes : List Screen.Size) : Pattern :=
  sizes.foldl (fun p size => (p.draw size.width size.height).2) p

/-! ### Canvas -/

variable {canvas : Array UInt8} {first place : Nat} {bytes : Bytes}

@[simp] theorem size_stretch (canvas : Array UInt8) (size : Nat) :
    (stretch canvas size).size = size := by
  unfold stretch
  split
  · rw [Array.size_shrink]
    omega
  · rw [Array.size_append, Array.size_replicate]
    omega

@[simp] theorem size_paint (canvas : Array UInt8) (first : Nat) (bytes : Bytes) :
    (paint canvas first bytes).size = canvas.size := by
  induction bytes generalizing canvas first with
  | nil => rfl
  | cons b rest ih => rw [paint, ih, Array.size_setIfInBounds]

theorem getElem?_paint_of_outside (outside : place < first ∨ first + bytes.length ≤ place) :
    (paint canvas first bytes)[place]? = canvas[place]? := by
  induction bytes generalizing canvas first with
  | nil => rfl
  | cons b rest ih =>
    rw [List.length_cons] at outside
    rw [paint, ih (by omega)]
    exact Array.getElem?_setIfInBounds_ne (by omega)

theorem getElem?_paint_of_inside (room : first + bytes.length ≤ canvas.size)
    (inside : place < bytes.length) :
    (paint canvas first bytes)[first + place]? = bytes[place]? := by
  induction bytes generalizing canvas first place with
  | nil => exact absurd inside (Nat.not_lt_zero place)
  | cons b rest ih =>
    rw [List.length_cons] at room inside
    cases place with
    | zero =>
      rw [paint, getElem?_paint_of_outside (.inl (by omega)), Nat.add_zero,
        Array.getElem?_setIfInBounds_self_of_lt (by omega)]
      rfl
    | succ place =>
      have room : first + 1 + rest.length ≤ (canvas.setIfInBounds first b).size := by
        rw [Array.size_setIfInBounds]
        omega
      rw [paint, Nat.add_comm place 1, ← Nat.add_assoc, ih room (by omega), Nat.add_comm 1 place,
        List.getElem?_cons_succ]

theorem foldl_paint {f : Nat → Bytes} (pieces : ∀ i, (f i).length = 4) {n : Nat}
    (room : 4 * n ≤ canvas.size) :
    let painted := (List.range n).foldl (fun canvas i => paint canvas (4 * i) (f i)) canvas
    painted.size = canvas.size ∧
      ∀ i < n, ∀ place < 4, painted[4 * i + place]? = (f i)[place]? := by
  induction n with
  | zero => exact ⟨rfl, fun i before => absurd before (Nat.not_lt_zero i)⟩
  | succ n ih =>
    obtain ⟨size, kept⟩ := ih (by omega)
    rw [List.range_succ, List.foldl_append, List.foldl_cons, List.foldl_nil]
    refine ⟨by rw [size_paint, size], fun i before place short => ?_⟩
    rcases Nat.lt_or_eq_of_le (Nat.le_of_lt_succ before) with earlier | rfl
    · -- The new piece lies behind all others.
      rw [getElem?_paint_of_outside (.inl (by omega))]
      exact kept i earlier place short
    · exact getElem?_paint_of_inside (by rw [pieces, size]; omega) (by rw [pieces]; exact short)

theorem paintAll_pieces (phase : UInt32) {width i : Nat} (inside : 4 * i + 4 ≤ canvas.size) :
    (paintAll phase width canvas).size = canvas.size ∧
      ((paintAll phase width canvas).toList.drop (4 * i)).take 4 =
        pixel phase (i % width) (i / width) := by
  have pieces (i : Nat) : (pixel phase (i % width) (i / width)).length = 4 := rfl
  obtain ⟨size, painted⟩ := foldl_paint pieces (Nat.mul_div_le canvas.size 4)
  refine ⟨size, List.ext_getElem? fun place => ?_⟩
  by_cases short : place < 4
  · rw [List.getElem?_take_of_lt short, List.getElem?_drop, Array.getElem?_toList]
    exact painted i (by omega) place short
  · rw [List.getElem?_take_eq_none (Nat.le_of_not_lt short),
      List.getElem?_eq_none (Nat.le_of_not_lt short)]

/-! ### Frames -/

theorem toNatClampNeg_max (side : Int32) : (max side 1).toNatClampNeg = pixelsAlong side := by
  rw [Int32.toNatClampNeg, Screen.Resolution.toInt_max]
  rfl

theorem pixelsAlong_pos (side : Int32) : 0 < pixelsAlong side := by
  rw [pixelsAlong]
  omega

theorem length_lt (width height : Int32) :
    4 * pixelsAlong width * pixelsAlong height < 2 ^ 64 := by
  have along (side : Int32) : pixelsAlong side ≤ 2 ^ 31 - 1 := by
    rw [← toNatClampNeg_max]
    exact Nat.le_pred_of_lt (max side 1).toNatClampNeg_lt
  have product := Nat.mul_le_mul (along width) (along height)
  rw [Nat.mul_assoc]
  omega

variable (p : Pattern) (width height : Int32)

theorem draw_pieces {i : Nat} (inside : i < pixelsAlong width * pixelsAlong height) :
    ((p.draw width height).1.drop (4 * i)).take 4 =
      pixel p.phase (i % pixelsAlong width) (i / pixelsAlong width) := by
  simp only [draw, toNatClampNeg_max]
  exact (paintAll_pieces p.phase (by rw [size_stretch]; omega)).2

theorem length_draw :
    (p.draw width height).1.length = 4 * pixelsAlong width * pixelsAlong height := by
  have some := Nat.mul_pos (pixelsAlong_pos width) (pixelsAlong_pos height)
  simp only [draw, toNatClampNeg_max, Array.length_toList]
  rw [(paintAll_pieces p.phase (i := 0) (by rw [size_stretch]; omega)).1, size_stretch,
    Nat.mul_comm, Nat.mul_assoc]

theorem draw_numbers {x y : Nat} (column : x < pixelsAlong width) (row : y < pixelsAlong height) :
    numbersAt (p.draw width height).1 (pixelsAlong width) x y =
      [(x + p.phase.toNat) % 256, (y + p.phase.toNat) % 256, (x + y) % 256, 255] := by
  have inside : y * pixelsAlong width + x < pixelsAlong width * pixelsAlong height := by
    calc y * pixelsAlong width + x < y * pixelsAlong width + pixelsAlong width :=
          Nat.add_lt_add_left column _
      _ = pixelsAlong width * (y + 1) := by rw [Nat.mul_comm, Nat.mul_succ]
      _ ≤ pixelsAlong width * pixelsAlong height := Nat.mul_le_mul_left _ row
  have remainder : (y * pixelsAlong width + x) % pixelsAlong width = x := by
    rw [Nat.mul_add_mod_self_right, Nat.mod_eq_of_lt column]
  have quotient : (y * pixelsAlong width + x) / pixelsAlong width = y := by
    rw [Nat.add_comm, Nat.add_mul_div_right _ _ (pixelsAlong_pos width), Nat.div_eq_of_lt column,
      Nat.zero_add]
  rw [numbersAt, draw_pieces p width height inside, remainder, quotient]
  rfl

theorem check_draw {width height : Int32} (wide : 1 ≤ width) (high : 1 ≤ height)
    (format : Picture.Format) (timestamp : Int) (change : Int32) :
    (⟨(p.draw width height).1, width, height, format, timestamp, change⟩ :
      Picture.Pixels).check = .ok () := by
  rw [← Picture.Pixels.one_le_toInt_iff] at wide high
  refine Picture.Pixels.check_iff_holds.mpr ⟨wide, high, ?_⟩
  have along {side : Int32} (large : 1 ≤ side.toInt) : (pixelsAlong side : Int) = side.toInt := by
    rw [pixelsAlong]
    omega
  rw [length_draw, Int.natCast_mul, Int.natCast_mul, along wide, along high]
  exact Int.le_refl _

/-! ### Runs -/

variable {p : Pattern} {sizes : List Screen.Size} {k : Nat}

theorem getElem?_drawAll (p : Pattern) (sizes : List Screen.Size) (k : Nat) :
    (p.drawAll sizes)[k]? = sizes[k]?.map fun size =>
      ((p.afterAll (sizes.take k)).draw size.width size.height).1 := by
  induction sizes generalizing p k with
  | nil => rfl
  | cons size rest ih =>
    cases k with
    | zero => rfl
    | succ k => exact ih (p.draw size.width size.height).2 k

/-- The word wraps at a multiple of 256. -/
theorem phase_afterAll (p : Pattern) (sizes : List Screen.Size) :
    (p.afterAll sizes).phase.toNat % 256 = (p.phase.toNat + 4 * sizes.length) % 256 := by
  induction sizes generalizing p with
  | nil => rfl
  | cons size rest ih =>
    have four : (4 : UInt32).toNat = 4 := rfl
    have moved : (p.draw size.width size.height).2.phase = p.phase + 4 := rfl
    have later := ih (p.draw size.width size.height).2
    rw [moved, UInt32.toNat_add, four] at later
    rw [List.length_cons]
    exact later.trans (by omega)

theorem drawAll_numbers {size : Screen.Size} (drawn : sizes[k]? = some size) :
    ∃ frame, (({} : Pattern).drawAll sizes)[k]? = some frame ∧
      frame.length = 4 * pixelsAlong size.width * pixelsAlong size.height ∧
      ∀ x < pixelsAlong size.width, ∀ y < pixelsAlong size.height,
        numbersAt frame (pixelsAlong size.width) x y =
          [(x + 4 * k) % 256, (y + 4 * k) % 256, (x + y) % 256, 255] := by
  obtain ⟨inside, -⟩ := List.getElem?_eq_some_iff.mp drawn
  let before := ({} : Pattern).afterAll (sizes.take k)
  have phase : before.phase.toNat % 256 = 4 * k % 256 := by
    have moved := phase_afterAll {} (sizes.take k)
    rw [List.length_take_of_le (Nat.le_of_lt inside)] at moved
    exact moved.trans (by rw [show ({} : Pattern).phase.toNat = 0 from rfl, Nat.zero_add])
  refine ⟨_, by rw [getElem?_drawAll, drawn]; rfl, length_draw before _ _, fun x hx y hy => ?_⟩
  rw [draw_numbers before _ _ hx hy, Nat.add_mod x, Nat.add_mod y, phase, ← Nat.add_mod,
    ← Nat.add_mod]

theorem ne_next {frame next : Bytes} (drawn : (({} : Pattern).drawAll sizes)[k]? = some frame)
    (drawn_next : (({} : Pattern).drawAll sizes)[k + 1]? = some next) : frame ≠ next := by
  rintro rfl
  -- The first pixel has the same place for every width, also for that of the next frame.
  have corner {k : Nat} (drawn : (({} : Pattern).drawAll sizes)[k]? = some frame) :
      numbersAt frame 0 0 0 = [(0 + 4 * k) % 256, (0 + 4 * k) % 256, 0, 255] := by
    obtain ⟨size, asked, -⟩ := Option.map_eq_some_iff.mp (getElem?_drawAll {} sizes k ▸ drawn)
    obtain ⟨found, same, -, numbers⟩ := drawAll_numbers asked
    obtain rfl := Option.some.inj (drawn.symm.trans same)
    have first := numbers 0 (pixelsAlong_pos _) 0 (pixelsAlong_pos _)
    rwa [numbersAt, Nat.zero_mul] at first
  have equal := (corner drawn).symm.trans (corner drawn_next)
  injection equal
  omega

/-- Of every run of a new pattern, each frame: its length, which a word of 64 bits can hold, each of
its pixels, that the next one differs from it, and that it passes its check if it was asked for with
positive sides. -/
theorem drawAll_pixels (sizes : List Screen.Size) (k : Nat) (size : Screen.Size)
    (asked : sizes[k]? = some size) :
    let w := (max size.width.toInt 1).toNat
    let h := (max size.height.toInt 1).toNat
    ∃ frame, (({} : Pattern).drawAll sizes)[k]? = some frame ∧
      frame.length = 4 * w * h ∧ 4 * w * h < 2 ^ 64 ∧
      (∀ x < w, ∀ y < h, numbersAt frame w x y =
        [(x + 4 * k) % 256, (y + 4 * k) % 256, (x + y) % 256, 255]) ∧
      (∀ next, (({} : Pattern).drawAll sizes)[k + 1]? = some next → frame ≠ next) ∧
      (1 ≤ size.width → 1 ≤ size.height → ∀ format timestamp change,
        (⟨frame, size.width, size.height, format, timestamp, change⟩ : Picture.Pixels).check =
          .ok ()) := by
  intro w h
  obtain ⟨frame, drawn, length, numbers⟩ := drawAll_numbers asked
  refine ⟨frame, drawn, length, length_lt _ _, numbers, fun next => ne_next drawn,
    fun wide high format timestamp change => ?_⟩
  rw [getElem?_drawAll, asked] at drawn
  obtain rfl := Option.some.inj drawn
  exact check_draw _ wide high format timestamp change

theorem drawAll_pixels_of_wrapped :
    let sizes := List.replicate (2 ^ 30) (⟨3, 2⟩ : Screen.Size) ++ [⟨2, 1⟩, ⟨2, 1⟩]
    sizes[2 ^ 30]? = some ⟨2, 1⟩ ∧
      ∃ frame next, (({} : Pattern).drawAll sizes)[2 ^ 30]? = some frame ∧
        (({} : Pattern).drawAll sizes)[2 ^ 30 + 1]? = some next ∧ frame.length = 8 ∧
        numbersAt frame 2 0 0 = [0, 0, 0, 255] ∧ numbersAt frame 2 1 0 = [1, 0, 1, 255] ∧
        frame ≠ next ∧ (⟨frame, 2, 1, .rgba, 0, 1⟩ : Picture.Pixels).check = .ok () := by
  intro sizes
  have behind (k : Nat) : sizes[2 ^ 30 + k]? = ([⟨2, 1⟩, ⟨2, 1⟩] : List Screen.Size)[k]? := by
    rw [List.getElem?_append_right (by rw [List.length_replicate]; exact Nat.le_add_right _ _),
      List.length_replicate, Nat.add_sub_cancel_left]
  have asked : sizes[2 ^ 30]? = some ⟨2, 1⟩ := by
    rw [← Nat.add_zero (2 ^ 30), behind]
    rfl
  have asked_next : sizes[2 ^ 30 + 1]? = some ⟨2, 1⟩ := (behind 1).trans rfl
  obtain ⟨frame, drawn, length, -, numbers, differs, passes⟩ := drawAll_pixels sizes _ _ asked
  obtain ⟨next, drawn_next, -⟩ := drawAll_pixels sizes _ _ asked_next
  exact ⟨asked, frame, next, drawn, drawn_next, length, numbers 0 (by decide) 0 (by decide),
    numbers 1 (by decide) 0 (by decide), differs next drawn_next,
    passes (by decide) (by decide) .rgba 0 1⟩

end ScreenPreview.Server.Pattern
