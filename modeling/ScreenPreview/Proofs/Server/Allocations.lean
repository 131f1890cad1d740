import ScreenPreview.Proofs.Server.Orders

/-!
The wire buffers that a server asks for.

One is asked for at the start and one after every change of the geometry. Its size is computed in
words of 64 bits, in which it always fits. No object can be larger than half of such a word counts,
and this much is asked for by some sizes that are accepted and by some settings: the buffers are
small enough exactly as long as every size that is given is (`allocations_fit_iff`).
-/
namespace ScreenPreview

open Screen

/-! ### Settings -/

namespace Server

theorem Section.count_lt {s : Section} {name : String} {place fallback n : Nat}
    (counted : s.count name place fallback = some n) (default : fallback < 2 ^ 63) :
    n < 2 ^ 63 := by
  unfold count int at counted
  split at counted
  · cases counted
    exact default
  · split at counted
    · cases counted
      omega
    · cases counted
  · cases counted

theorem StreamSettings.maxPayload_lt {s : Section} {settings : StreamSettings}
    (read : ofSection s = some settings) : settings.maxPayload < 2 ^ 63 := by
  simp only [ofSection, Option.bind_eq_bind, Option.bind_eq_some_iff] at read
  obtain ⟨_, -, _, -, maxPayload, counted, _, -, _, -, _, -, _, -, _, -, same⟩ := read
  cases same
  exact Section.count_lt counted (by decide)

theorem Config.maxPayload_lt (file : Option Bytes) :
    (load file).config.stream.maxPayload < 2 ^ 63 := by
  have default : ({} : Config).stream.maxPayload < 2 ^ 63 := by decide
  unfold load
  cases file.bind Bytes.text? with
  | none => exact default
  | some text =>
    dsimp only
    cases read : (Toml.read text).bind ofMembers? with
    | none => exact default
    | some config =>
      obtain ⟨members, -, taken⟩ := Option.bind_eq_some_iff.mp read
      simp only [ofMembers?, Option.bind_eq_bind, Option.bind_eq_some_iff] at taken
      obtain ⟨_, -, _, -, _, -, _, -, _, -, _, -, stream, streamed, _, -, _, -, _, -, same⟩ := taken
      cases same
      exact StreamSettings.maxPayload_lt streamed

end Server

/-! ### Sizes -/

namespace Screen

/-- The pixels of a frame that is as wide and as high as either of two sizes. -/
def area (display compression : Size) : Nat :=
  Resolution.longerSide compression.width display.width *
    Resolution.longerSide compression.height display.height

def Resolution.area (r : Resolution) : Nat := Screen.area r.display r.compression

namespace Geometry

variable {g : Geometry} {change : Change}

theorem area_sizes {display compression : Size}
    (ordered : (Change.sizes display compression).Ordered g) :
    (g.perform (.sizes display compression)).resolution.area = area display compression := by
  rw [perform_sizes ordered]
  rfl

theorem area_perform (ordered : change.Ordered g)
    (no_size : ∀ display compression, change ≠ .sizes display compression) :
    (g.perform change).resolution.area = g.resolution.area := by
  cases change with
  | sizes display compression => exact absurd rfl (no_size display compression)
  | reverse => exact Nat.mul_comm _ _
  | applyFold status =>
    have same : (g.perform (.applyFold status)).resolution = g.resolution.applyFold status := rfl
    rw [same, Resolution.applyFold]
    dsimp only
    split
    · rfl
    · split <;> rfl
  | _ => cases ordered

end Geometry

theorem Resolution.longerSide_lt (a b : Int32) : longerSide a b < 2 ^ 31 := by
  rw [longerSide]
  exact Int32.toNatClampNeg_lt _

theorem Resolution.area_le (r : Resolution) : r.area ≤ (2 ^ 31 - 1) * (2 ^ 31 - 1) :=
  Nat.mul_le_mul (Nat.le_pred_of_lt (longerSide_lt _ _)) (Nat.le_pred_of_lt (longerSide_lt _ _))

end Screen

namespace Server.Preview

def sizeWord (maxPayload : UInt64) (r : Resolution) : UInt64 :=
  let width := Resolution.longerSide r.compression.width r.display.width
  let height := Resolution.longerSide r.compression.height r.display.height
  13 + if 0 < maxPayload then maxPayload else width.toUInt64 * height.toUInt64 * 4

/-- No step of the size goes beyond a word. -/
theorem toNat_sizeWord {settings : Stream.Settings} (small : settings.maxPayload < 2 ^ 63)
    (r : Resolution) : (sizeWord settings.maxPayload.toUInt64 r).toNat =
      Stream.PackBuffer.sizeFor 0 (Stream.Feed.payloadRoom settings r) := by
  have given : settings.maxPayload.toUInt64.toNat = settings.maxPayload :=
    UInt64.toNat_ofNat_of_lt' (Nat.lt_trans small (by decide))
  have asked : 0 < settings.maxPayload.toUInt64 ↔ 0 < settings.maxPayload := by
    rw [UInt64.lt_iff_toNat_lt, given]
    rfl
  rw [sizeWord, Stream.PackBuffer.sizeFor, Stream.Feed.payloadRoom]
  by_cases some : 0 < settings.maxPayload
  · rw [if_pos some, if_pos (asked.mpr some), UInt64.toNat_add, given]
    exact Nat.mod_eq_of_lt (by simp; omega)
  · rw [if_neg some, if_neg (mt asked.mp some)]
    have width := Resolution.longerSide_lt r.compression.width r.display.width
    have height := Resolution.longerSide_lt r.compression.height r.display.height
    have largest := r.area_le
    rw [Resolution.area, area] at largest
    rw [Resolution.maxFrameBytes]
    generalize Resolution.longerSide r.compression.width r.display.width = w at *
    generalize Resolution.longerSide r.compression.height r.display.height = h at *
    have words : w.toUInt64.toNat = w ∧ h.toUInt64.toNat = h :=
      ⟨UInt64.toNat_ofNat_of_lt' (Nat.lt_trans width (by decide)),
        UInt64.toNat_ofNat_of_lt' (Nat.lt_trans height (by decide))⟩
    have pixels : (w.toUInt64 * h.toUInt64).toNat = w * h := by
      rw [UInt64.toNat_mul, words.1, words.2]
      exact Nat.mod_eq_of_lt (by omega)
    have bytes : (w.toUInt64 * h.toUInt64 * 4).toNat = w * h * 4 := by
      rw [UInt64.toNat_mul, pixels]
      exact Nat.mod_eq_of_lt (by simp; omega)
    rw [UInt64.toNat_add, bytes]
    exact Nat.mod_eq_of_lt (by simp; omega)

/-! ### Requests -/

def bufferSize (s : Preview) : Nat := s.feed.outlet.buffer.size

/-- The wire buffer is a new one for the sizes that there are. -/
def Fitted (s : Preview) : Prop :=
  s.feed.outlet.buffer = Stream.PackBuffer.allocate 0 s.feed.roomNow

def allocating : Preview → List Request → List Preview
  | _, [] => []
  | s, request :: rest =>
    (request.order? s).toList.map (fun _ => request.carry s) ++ allocating (request.carry s) rest

variable {s : Preview}

theorem Fitted.carry (fitted : s.Fitted) (request : Request) :
    (request.carry s).Fitted ∧ (request.carry s).feed.settings = s.feed.settings := by
  cases ordered_carry request s with
  | kept _ geometry outlet settings =>
    refine ⟨?_, settings⟩
    rw [Fitted, Stream.Feed.roomNow, outlet, geometry, settings]
    exact fitted
  | changed change _ _ geometry outlet settings =>
    refine ⟨?_, settings⟩
    have reserve : s.feed.outlet.buffer.reserve = 0 := by
      rw [fitted]
      rfl
    rw [Fitted, outlet, Stream.Outlet.resize, Stream.PackBuffer.resize, reserve]

theorem Fitted.allocating (fitted : s.Fitted) (past : List Request) :
    ∀ t ∈ s.allocating past, t.Fitted ∧ t.feed.settings = s.feed.settings := by
  induction past generalizing s with
  | nil => simp [Preview.allocating]
  | cons request rest ih =>
    obtain ⟨carried, settings⟩ := fitted.carry request
    intro t member
    rcases List.mem_append.mp member with here | later
    · obtain ⟨-, -, rfl⟩ := List.mem_map.mp here
      exact ⟨carried, settings⟩
    · rw [← settings]
      exact ih carried t later

theorem area_of_allocating (past : List Request) {t : Preview} (member : t ∈ s.allocating past) :
    t.feed.geometry.resolution.area = s.feed.geometry.resolution.area ∨
      ∃ display compression, .sizes display compression ∈ orders s past ∧
        t.feed.geometry.resolution.area = area display compression := by
  induction past generalizing s with
  | nil => cases member
  | cons request rest ih =>
    have further : t.feed.geometry.resolution.area =
        (request.carry s).feed.geometry.resolution.area ∨
        ∃ display compression, .sizes display compression ∈ orders (request.carry s) rest ∧
          t.feed.geometry.resolution.area = area display compression := by
      rcases List.mem_append.mp member with here | later
      · obtain ⟨-, -, rfl⟩ := List.mem_map.mp here
        exact Or.inl rfl
      · exact ih later
    rw [orders]
    rcases further with same | ⟨display, compression, ordered, same⟩
    · cases ordered_carry request s with
      | kept _ geometry =>
        rw [geometry] at same
        exact Or.inl same
      | changed change some ordered geometry =>
        rw [geometry] at same
        by_cases sizes : ∃ display compression, change = .sizes display compression
        · obtain ⟨display, compression, rfl⟩ := sizes
          rw [Geometry.area_sizes ordered] at same
          exact Or.inr ⟨display, compression, by simp [some], same⟩
        · rw [Geometry.area_perform ordered fun d k sized => sizes ⟨d, k, sized⟩] at same
          exact Or.inl same
    · exact Or.inr ⟨display, compression, List.mem_append_right _ ordered, same⟩

theorem allocating_of_sizes (past : List Request) {display compression : Size}
    (member : .sizes display compression ∈ orders s past) :
    ∃ t ∈ s.allocating past, t.feed.geometry.resolution.area = area display compression := by
  induction past generalizing s with
  | nil => cases member
  | cons request rest ih =>
    rcases List.mem_append.mp member with here | later
    · have asked := Option.mem_toList.mp here
      refine ⟨request.carry s, ?_, ?_⟩
      · rw [allocating, asked]
        exact List.mem_cons_self
      · cases ordered_carry request s with
        | kept none => simp [none] at asked
        | changed change some ordered geometry =>
          rw [some] at asked
          cases asked
          rw [geometry, Geometry.area_sizes ordered]
    · obtain ⟨t, allocates, same⟩ := ih later
      exact ⟨t, List.mem_append_right _ allocates, same⟩

theorem Fitted.size (fitted : s.Fitted) (past : List Request) :
    ∀ t ∈ s :: s.allocating past, t.bufferSize = Stream.PackBuffer.sizeFor 0
      (Stream.Feed.payloadRoom s.feed.settings t.feed.geometry.resolution) := by
  have size {t : Preview} (fitted : t.Fitted) (settings : t.feed.settings = s.feed.settings) :
      t.bufferSize = Stream.PackBuffer.sizeFor 0
        (Stream.Feed.payloadRoom s.feed.settings t.feed.geometry.resolution) := by
    rw [bufferSize, fitted, Stream.Feed.roomNow, settings]
    rfl
  intro t member
  rcases List.mem_cons.mp member with rfl | later
  · exact size fitted rfl
  · obtain ⟨buffer, settings⟩ := fitted.allocating past t later
    exact size buffer settings

theorem Fitted.within_iff_of_given (fitted : s.Fitted) (past : List Request)
    (given : 0 < s.feed.settings.maxPayload) :
    (∀ t ∈ s :: s.allocating past, t.bufferSize ≤ 2 ^ 63 - 1) ↔
      s.feed.settings.maxPayload ≤ 2 ^ 63 - 14 := by
  have size (t : Preview) (member : t ∈ s :: s.allocating past) :
      t.bufferSize = 13 + s.feed.settings.maxPayload := by
    rw [fitted.size past t member, Stream.Feed.payloadRoom, if_pos given, Stream.PackBuffer.sizeFor,
      Wire.Header.size, Nat.zero_add]
  constructor
  · intro within
    have first := within s List.mem_cons_self
    rw [size s List.mem_cons_self] at first
    omega
  · intro small t member
    rw [size t member]
    omega

theorem Fitted.within_iff_of_sizes (fitted : s.Fitted) (past : List Request)
    (derived : ¬ 0 < s.feed.settings.maxPayload) :
    (∀ t ∈ s :: s.allocating past, t.bufferSize ≤ 2 ^ 63 - 1) ↔
      s.feed.geometry.resolution.area ≤ 2 ^ 61 - 4 ∧
        ∀ display compression, .sizes display compression ∈ orders s past →
          area display compression ≤ 2 ^ 61 - 4 := by
  have small (t : Preview) (member : t ∈ s :: s.allocating past) :
      t.bufferSize ≤ 2 ^ 63 - 1 ↔ t.feed.geometry.resolution.area ≤ 2 ^ 61 - 4 := by
    have size : t.bufferSize = 13 + t.feed.geometry.resolution.area * 4 := by
      rw [fitted.size past t member, Stream.Feed.payloadRoom, if_neg derived,
        Stream.PackBuffer.sizeFor, Wire.Header.size, Nat.zero_add]
      rfl
    omega
  constructor
  · intro within
    refine ⟨(small s List.mem_cons_self).mp (within s List.mem_cons_self), ?_⟩
    intro display compression ordered
    obtain ⟨t, allocates, same⟩ := allocating_of_sizes past ordered
    have later := List.mem_cons_of_mem s allocates
    exact same ▸ (small t later).mp (within t later)
  · rintro ⟨first, others⟩ t member
    refine (small t member).mpr ?_
    rcases List.mem_cons.mp member with rfl | later
    · exact first
    · rcases area_of_allocating past later with same | ⟨display, compression, ordered, same⟩
      · exact same ▸ first
      · exact same ▸ others display compression ordered

/-- Whatever the settings are and whatever is asked: the size of every wire buffer is computed in a
word of 64 bits without a step that wraps. None is more than an object may have exactly if the
payload that is given is small enough, or else the sizes at the start and every size that is given
later are. -/
theorem allocations_fit_iff (file : Option Bytes) (now : Int) (past : List Request) :
    let c := (Config.load file).config
    let start := ofConfig c now
    (∀ t ∈ start :: start.allocating past, t.bufferSize =
      (sizeWord c.stream.maxPayload.toUInt64 t.feed.geometry.resolution).toNat) ∧
    ((∀ t ∈ start :: start.allocating past, t.bufferSize ≤ 2 ^ 63 - 1) ↔
      if 0 < c.stream.maxPayload then c.stream.maxPayload ≤ 2 ^ 63 - 14
      else area c.resolution.display c.resolution.compression ≤ 2 ^ 61 - 4 ∧
        ∀ display compression, .sizes display compression ∈ orders start past →
          area display compression ≤ 2 ^ 61 - 4) := by
  intro c start
  have small : c.settings.maxPayload < 2 ^ 63 := Config.maxPayload_lt file
  have fitted : start.Fitted := rfl
  refine ⟨?_, ?_⟩
  · intro t member
    rw [fitted.size past t member]
    exact (toNat_sizeWord small _).symm
  · split
    · exact fitted.within_iff_of_given past ‹_›
    · exact fitted.within_iff_of_sizes past ‹_›

def largestSize : Request where
  moment := ⟨0, 0⟩
  mode := .dynamic
  line := "\x7b\"type\":\"set\",\"command\":\"Resolution\",\"version\":\"1.0.0\",\"args\":" ++
    "\x7b\"originalWidth\":2147483647,\"originalHeight\":2147483647\x7d\x7d"

/-- The largest size is accepted, and a buffer is asked for that no object can have. -/
theorem allocation_beyond_half :
    ¬ ∀ (file : Option Bytes) (now : Int) (past : List Request),
      ∀ t ∈ (ofConfig (Config.load file).config now).allocating past,
        t.bufferSize ≤ 2 ^ 63 - 1 := by
  intro fit
  have asked : ((ofConfig {} 0).allocating [largestSize]).map bufferSize =
      [18446744056529682449] := by decide +kernel
  have within : ∀ size ∈ ((ofConfig {} 0).allocating [largestSize]).map bufferSize,
      size ≤ 2 ^ 63 - 1 := by
    intro size member
    obtain ⟨t, allocates, rfl⟩ := List.mem_map.mp member
    exact fit none 0 [largestSize] t allocates
  rw [asked] at within
  exact absurd (within _ List.mem_cons_self) (by decide)

end Server.Preview

end ScreenPreview
