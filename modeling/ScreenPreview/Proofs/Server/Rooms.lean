import ScreenPreview.Proofs.Server.Allocations

/-!
The room for payloads, and the sizes for which it is.

The sizes and the wire buffer are changed one after the other, and a request that is refused or
dropped changes neither. So whatever is asked, the buffer has the room that the settings give, or
else that of the sizes there are (`capacity_afterAll`), and a raw frame of either size fits.
-/
namespace ScreenPreview

namespace Screen

def Size.rawBytes (s : Size) : Int := 4 * s.width.toInt * s.height.toInt

theorem Size.toInt_pos {s : Size} (positive : s.isPositive = true) :
    0 < s.width.toInt ∧ 0 < s.height.toInt := by
  have one : (1 : Int32).toInt = 1 := rfl
  obtain ⟨width, height⟩ := isPositive_iff.mp positive
  rw [Int32.le_iff_toInt_le, one] at width height
  exact ⟨width, height⟩

namespace Resolution

theorem longerSide_eq {a : Int32} (positive : 0 < a.toInt) (b : Int32) :
    (longerSide a b : Int) = max a.toInt b.toInt := by
  have one : (1 : Int32).toInt = 1 := rfl
  rw [longerSide, Int32.toNatClampNeg, toInt_max, toInt_max, one]
  omega

variable {r : Resolution}

theorem maxFrameBytes_eq (positive : r.Positive) :
    (r.maxFrameBytes : Int) = 4 * max r.compression.width.toInt r.display.width.toInt *
      max r.compression.height.toInt r.display.height.toInt := by
  obtain ⟨width, height⟩ := Size.toInt_pos positive.compression
  rw [maxFrameBytes, Int.natCast_mul, Int.natCast_mul, longerSide_eq width, longerSide_eq height,
    Int.mul_comm, Int.mul_assoc]
  rfl

theorem rawBytes_le (positive : r.Positive) {size : Size}
    (drawn : size = r.display ∨ size = r.compression) : size.rawBytes ≤ r.maxFrameBytes := by
  rw [maxFrameBytes_eq positive, Size.rawBytes]
  have sides : 0 < size.height.toInt ∧
      size.width.toInt ≤ max r.compression.width.toInt r.display.width.toInt ∧
      size.height.toInt ≤ max r.compression.height.toInt r.display.height.toInt := by
    rcases drawn with rfl | rfl
    · exact ⟨(Size.toInt_pos positive.display).2, Int.le_max_right .., Int.le_max_right ..⟩
    · exact ⟨(Size.toInt_pos positive.compression).2, Int.le_max_left .., Int.le_max_left ..⟩
  obtain ⟨some, wide, high⟩ := sides
  have wider := (Size.toInt_pos positive.compression).1
  exact Int.mul_le_mul (by omega) high (by omega) (by omega)

end Resolution

end Screen

theorem Stream.PackBuffer.pack_of_fits {b : PackBuffer} {payload : Bytes}
    (fits : payload.length ≤ b.capacity) (header : Wire.Header) :
    ∃ length c, b.pack header payload = .ok (length, c) := by
  rw [pack, if_neg (Nat.not_lt.mpr fits)]
  exact ⟨_, _, rfl⟩

namespace Server.Preview

open Screen

variable {s : Preview}

theorem Fitted.afterAll (fitted : s.Fitted) (past : List Request) :
    (s.afterAll past).Fitted ∧ (s.afterAll past).feed.settings = s.feed.settings := by
  induction past generalizing s with
  | nil => exact ⟨fitted, rfl⟩
  | cons request rest ih =>
    obtain ⟨carried, settings⟩ := fitted.carry request
    rw [afterAll_cons, ← settings]
    exact ih carried

theorem Fitted.capacity_eq (fitted : s.Fitted) : s.feed.capacity = s.feed.roomNow := by
  rw [Stream.Feed.capacity, Stream.Outlet.capacity, fitted]
  exact Stream.PackBuffer.capacity_allocate 0 _

theorem positive_afterAll (c : Config) (now : Int) (past : List Request) :
    ((ofConfig c now).afterAll past).feed.geometry.resolution.Positive := by
  obtain ⟨display, compression, current⟩ := Geometry.resolution_positive c
  have start : c.geometry.resolution = { c.resolution with
      foldable := c.foldParameters.foldable
      foldStatus := c.foldParameters.status
      fold := c.foldParameters.size } := rfl
  have positive : c.geometry.resolution.Positive := by
    rw [start]
    exact ⟨display, compression, current⟩
  rw [geometry_afterAll]
  exact Geometry.run_positive positive _

/-- Whatever the settings are and whatever is asked, in any modes: the wire buffer has the room that
is given, or else that of a raw frame as wide and as high as the compression or the display size
there are, and then a raw frame of either of the two can be packed. -/
theorem capacity_afterAll (c : Config) (now : Int) (past : List Request) :
    let s := (ofConfig c now).afterAll past
    let r := s.feed.geometry.resolution
    (s.feed.capacity : Int) =
      (if 0 < c.stream.maxPayload then (c.stream.maxPayload : Int) else
        4 * max r.compression.width.toInt r.display.width.toInt *
          max r.compression.height.toInt r.display.height.toInt) ∧
    (c.stream.maxPayload = 0 → ∀ size, size = r.display ∨ size = r.compression →
      0 < size.rawBytes ∧ ∀ header (payload : Bytes), payload.length ≤ size.rawBytes →
        ∃ length buffer, s.feed.outlet.buffer.pack header payload = .ok (length, buffer)) := by
  intro s r
  have start : (ofConfig c now).Fitted := rfl
  obtain ⟨fitted, settings⟩ := start.afterAll past
  have positive : r.Positive := positive_afterAll c now past
  have room : s.feed.capacity =
      if 0 < c.stream.maxPayload then c.stream.maxPayload else r.maxFrameBytes := by
    rw [fitted.capacity_eq, Stream.Feed.roomNow, settings]
    rfl
  refine ⟨?_, ?_⟩
  · rw [room, ← Resolution.maxFrameBytes_eq positive]
    split <;> rfl
  · intro derived size drawn
    have some : 0 < size.width.toInt ∧ 0 < size.height.toInt := by
      rcases drawn with rfl | rfl
      · exact Size.toInt_pos positive.display
      · exact Size.toInt_pos positive.compression
    refine ⟨Int.mul_pos (Int.mul_pos (by decide) some.1) some.2, ?_⟩
    intro header payload short
    have enough := Resolution.rawBytes_le positive drawn
    rw [if_neg (by omega)] at room
    have fits : payload.length ≤ s.feed.outlet.buffer.capacity := by
      have same : s.feed.outlet.buffer.capacity = r.maxFrameBytes := room
      omega
    exact Stream.PackBuffer.pack_of_fits fits header

def turnIt : Request where
  moment := ⟨0, 0⟩
  mode := .static
  line := "\x7b\"type\":\"action\",\"command\":\"Rotate\",\"version\":\"1.0.0\"\x7d"

def flatSize : Request where
  moment := ⟨0, 0⟩
  mode := .dynamic
  line := "\x7b\"type\":\"set\",\"command\":\"Resolution\",\"version\":\"1.0.0\",\"args\":" ++
    "\x7b\"originalWidth\":5000,\"originalHeight\":0\x7d\x7d"

theorem capacity_after_turn :
    let s := (ofConfig {} 0).afterAll [newSize, turnIt, flatSize]
    ({} : Config).stream.maxPayload = 0 ∧ s.feed.capacity = 3686400 ∧
      ∀ header (payload : Bytes), (payload.length : Int) ≤ 3686400 →
        ∃ length buffer, s.feed.outlet.buffer.pack header payload = .ok (length, buffer) := by
  intro s
  have ordered : orders (ofConfig {} 0) [newSize, turnIt, flatSize] =
      [.sizes ⟨720, 1280⟩ ⟨720, 1280⟩, .reverse] := by decide +kernel
  have sizes : s.feed.geometry.resolution.display = ⟨1280, 720⟩ ∧
      s.feed.geometry.resolution.compression = ⟨1280, 720⟩ := by
    rw [geometry_afterAll, ordered]
    exact ⟨rfl, rfl⟩
  obtain ⟨capacity, holds⟩ := capacity_afterAll {} 0 [newSize, turnIt, flatSize]
  have derived : ({} : Config).stream.maxPayload = 0 := rfl
  refine ⟨derived, ?_, (holds derived ⟨1280, 720⟩ (Or.inl sizes.1.symm)).2⟩
  rw [sizes.1, sizes.2] at capacity
  exact Int.ofNat.inj capacity

end Server.Preview

end ScreenPreview
