import ScreenPreview.Stream.Feed

/-!
What the wire buffer hands out.

The bytes reserved for the sink stay in the buffer whatever is packed behind them, so every packed
frame is written as these bytes, one header and the whole payload.
-/
namespace ScreenPreview

namespace Wire

def Header.announcing (h : Header) (payload : Bytes) : Header :=
  { h with payloadLength := payload.length.toUInt32 }

theorem Header.payloadLength_announcing (h : Header) {payload : Bytes}
    (short : payload.length < UInt32.size) :
    (h.announcing payload).payloadLength.toNat = payload.length :=
  UInt32.toNat_ofNat_of_lt' short

theorem Flags.includes_union {a b c : Flags} (apart : b.bits &&& c.bits = 0) :
    (a.union b).includes c = a.includes c := by
  have bits : (a.bits ||| b.bits) &&& c.bits = (a.bits &&& c.bits) ||| (b.bits &&& c.bits) :=
    UInt8.toBitVec_inj.mp BitVec.and_or_distrib_right
  rw [apart, UInt8.or_zero] at bits
  simp only [includes, union, bits]

theorem Flags.includes_withIf {a b c : Flags} (condition : Bool) (apart : b.bits &&& c.bits = 0) :
    (a.withIf condition b).includes c = a.includes c := by
  cases condition with
  | false => rfl
  | true => exact includes_union apart

end Wire

namespace Stream

/-! ### The wire buffer -/

structure PackBuffer.Reserves (b : PackBuffer) (n : Nat) : Prop where
  reserve : b.reserve = n
  stored : n ≤ b.store.length

namespace PackBuffer

variable {b : PackBuffer} {n : Nat}

theorem reserves_allocate (n room : Nat) : (allocate n room).Reserves n :=
  ⟨rfl, by simp [allocate]⟩

theorem Reserves.resize (kept : b.Reserves n) (room : Nat) : (b.resize room).Reserves n := by
  rw [PackBuffer.resize, kept.reserve]
  exact reserves_allocate n room

theorem Reserves.stamp (kept : b.Reserves n) (mark : Bytes) : (b.stamp mark).Reserves n := by
  refine ⟨kept.reserve, ?_⟩
  have short : 0 + (mark.take b.reserve).length ≤ b.store.length := by
    have := kept.reserve
    have := kept.stored
    simp only [List.length_take]
    omega
  rw [PackBuffer.stamp, Bytes.length_overwrite _ _ _ short]
  exact kept.stored

theorem Reserves.pack (kept : b.Reserves n) {header : Wire.Header} {payload : Bytes}
    {length : Nat} {c : PackBuffer} (packs : b.pack header payload = .ok (length, c)) :
    c.Reserves n ∧ c.isPacked = true ∧ ∃ reserved : Bytes, reserved.length = n ∧
      c.wire = reserved ++ (header.announcing payload).toBytes ++ payload := by
  unfold PackBuffer.pack at packs
  split at packs
  · cases packs
  · cases packs
    have enough : (b.store.take b.reserve).length = b.reserve := by
      have := kept.reserve
      have := kept.stored
      rw [List.length_take]
      omega
    refine ⟨⟨kept.reserve, ?_⟩, ?_, b.store.take b.reserve, by rw [enough, kept.reserve], ?_⟩
    · simp only [Bytes.overwrite, List.length_append, enough]
      have := kept.reserve
      omega
    · simp [isPacked, Wire.Header.size]
    · have length : ((header.announcing payload).toBytes ++ payload).length =
          Wire.Header.size + payload.length := by simp
      simp only [wire, Bytes.overwrite]
      rw [List.append_assoc (b.store.take b.reserve) (Wire.Header.toBytes _) payload]
      refine List.take_left' ?_
      rw [List.length_append, enough]
      exact congrArg (b.reserve + ·) length

end PackBuffer

/-! ### The outlet -/

namespace Outlet

variable {o : Outlet} {n : Nat}

/-- What a write hands to the sink is `n` reserved bytes, a header that announces the payload, and
the whole payload. -/
def Packs (o : Outlet) (n : Nat) (header : Wire.Header) (payload : Bytes) : Prop :=
  ∃ reserved : Bytes, reserved.length = n ∧
    o.wire? = .ok (reserved ++ (header.announcing payload).toBytes ++ payload)

theorem reserves_delivered (kept : o.buffer.Reserves n) (d : Delivery) :
    (o.delivered d).buffer.Reserves n := by
  have stamped := kept.stamp d.reserved
  unfold delivered
  cases d.result <;> exact stamped

theorem pack_ok (kept : o.buffer.Reserves n) {ready : Bool} {header : Wire.Header}
    {payload : Bytes} {length : Nat} {p : Outlet}
    (packs : o.pack ready header payload = .ok (length, p)) :
    p.buffer.Reserves n ∧ p.Packs n header payload := by
  unfold pack at packs
  split at packs
  · cases packs
  · split at packs
    · cases packs
    · cases packed : o.buffer.pack header payload with
      | error failure => rw [packed] at packs; cases packs
      | ok pair =>
        rw [packed] at packs
        cases packs
        obtain ⟨reserves, there, reserved, count, wire⟩ := kept.pack packed
        exact ⟨reserves, reserved, count, by simp [wire?, there, wire]⟩

theorem pack_error_cases {ready : Bool} {header : Wire.Header} {payload : Bytes}
    {failure : Failure} (refused : o.pack ready header payload = .error failure) :
    failure = .noViewer ∨ failure = .partsOnly ∨ ∃ size limit, failure = .tooLarge size limit := by
  unfold pack at refused
  split at refused
  · cases refused
    exact Or.inl rfl
  · split at refused
    · cases refused
      exact Or.inr (Or.inl rfl)
    · unfold PackBuffer.pack at refused
      split at refused
      · cases refused
        exact Or.inr (Or.inr ⟨_, _, rfl⟩)
      · cases refused

end Outlet

/-! ### The feed -/

namespace Feed

variable {f : Feed}

theorem includes_header (f : Feed) (flags c : Wire.Flags)
    (static : Wire.Flags.static.bits &&& c.bits = 0)
    (folded : Wire.Flags.folded.bits &&& c.bits = 0) :
    (f.header flags).flags.includes c = flags.includes c := by
  simp only [header]
  rw [Wire.Flags.includes_withIf _ folded, Wire.Flags.includes_withIf _ static]

theorem pack_ok {ready : Bool} {header : Wire.Header} {payload : Bytes} {g : Feed}
    (packs : f.pack ready header payload = .ok g) :
    ∃ length outlet, f.outlet.pack ready header payload = .ok (length, outlet) ∧
      g = { f with outlet } := by
  unfold pack at packs
  cases packed : f.outlet.pack ready header payload with
  | error failure => rw [packed] at packs; cases packs
  | ok pair =>
    rw [packed] at packs
    cases packs
    exact ⟨pair.1, pair.2, rfl, rfl⟩

theorem pack_error_cases {ready : Bool} {header : Wire.Header} {payload : Bytes} {failure : Failure}
    (refused : f.pack ready header payload = .error failure) :
    failure = .noViewer ∨ failure = .partsOnly ∨ ∃ size limit, failure = .tooLarge size limit := by
  unfold pack at refused
  cases packed : f.outlet.pack ready header payload with
  | error reason =>
    rw [packed] at refused
    cases refused
    exact Outlet.pack_error_cases packed
  | ok pair => rw [packed] at refused; cases refused

theorem pack_error {ready : Bool} {header : Wire.Header} {payload : Bytes} {failure : Failure}
    (refused : f.pack ready header payload = .error failure) : failure ≠ .nothingPacked := by
  rintro rfl
  simpa using pack_error_cases refused

end Feed

end Stream

end ScreenPreview
