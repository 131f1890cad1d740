import ScreenPreview.Proofs.Stream.Packing

/-!
The regions of the wire buffer.

Reserved bytes, header and payload lie behind one another in one array that is used for every
frame. Whatever is packed, refused, filled in by the sink or allocated anew, the buffer shows the
frame that was packed last and nothing of an earlier one, and no access leaves the array
(`run_shows`).

An array has a bound on its size, and one that is beyond it cannot be allocated. Nothing else goes
wrong: all other sums of sizes stay below the bound.
-/
namespace ScreenPreview

namespace Bytes

def slice? (b : Bytes) (first last : Nat) : Option Bytes :=
  if first ≤ last ∧ last ≤ b.length then some ((b.take last).drop first) else none

def patch? (b : Bytes) (first : Nat) (patch : Bytes) : Option Bytes :=
  if first + patch.length ≤ b.length then some (overwrite b first patch) else none

def padded (b : Bytes) (size : Nat) : Bytes := b ++ List.replicate (size - b.length) 0

theorem length_padded {b : Bytes} {size : Nat} (fits : b.length ≤ size) :
    (b.padded size).length = size := by
  rw [padded, List.length_append, List.length_replicate]
  omega

theorem padded_overwrite {b patch : Bytes} {first size : Nat} (start : first ≤ b.length)
    (fits : first + patch.length ≤ size) :
    (overwrite b first patch).padded size = overwrite (b.padded size) first patch := by
  have zeros : size - (overwrite b first patch).length =
      size - b.length - (first + patch.length - b.length) := by
    simp only [overwrite, List.length_append, List.length_take, List.length_drop]
    omega
  rw [padded, zeros]
  simp only [overwrite, padded, List.take_append_of_le_length start, List.drop_append,
    List.drop_replicate, List.append_assoc]

theorem overwrite_append {b patch : Bytes} {first : Nat} (rest : Bytes)
    (within : first + patch.length ≤ b.length) :
    overwrite (b ++ rest) first patch = overwrite b first patch ++ rest := by
  rw [overwrite, overwrite, List.take_append_of_le_length (by omega),
    List.drop_append_of_le_length within, List.append_assoc (b.take first ++ patch)]

theorem overwrite_behind {b patch : Bytes} {first : Nat}
    (within : first + patch.length ≤ b.length) :
    overwrite b first (overwrite (b.drop first) 0 patch) = overwrite b first patch := by
  have behind : overwrite (b.drop first) 0 patch = patch ++ b.drop (first + patch.length) := by
    simp [overwrite, List.drop_drop]
  have whole : first + (patch ++ b.drop (first + patch.length)).length = b.length := by
    rw [List.length_append, List.length_drop]
    omega
  rw [behind, overwrite, whole, List.drop_length, List.append_nil, overwrite, List.append_assoc]

theorem patch?_eq {b patch : Bytes} {first : Nat} (fits : first + patch.length ≤ b.length) :
    b.patch? first patch = some (overwrite b first patch) := if_pos fits

theorem overwrite_overwrite (b : Bytes) (front back : Bytes) {first : Nat}
    (start : first ≤ b.length) :
    overwrite (overwrite b first front) (first + front.length) back =
      overwrite b first (front ++ back) := by
  have count : (b.take first ++ front).length = first + front.length := by
    rw [List.length_append, List.length_take, Nat.min_eq_left start]
  have more : first + front.length + back.length - (first + front.length) = back.length := by omega
  rw [overwrite, overwrite, overwrite, List.take_left' count, List.drop_append, count,
    List.drop_eq_nil_of_le (by omega), more, List.drop_drop, List.length_append, List.nil_append,
    Nat.add_assoc, List.append_assoc (b.take first)]

end Bytes

namespace Stream

/-! ### Operations -/

/-- What is done to a wire buffer. The sink is handed the wire and fills the bytes reserved for it,
all of them or some from the first on. -/
inductive PackBuffer.Operation where
  | pack (header : Wire.Header) (payload : Bytes)
  | fill (reserved : Bytes)
  | resize (capacity : Nat)

open PackBuffer (Operation)

abbrev PackBuffer.Answer := Option (Except Failure Nat)

open PackBuffer (Answer)

def PackBuffer.Operation.Short : Operation → Prop
  | .pack _ payload => payload.length < UInt32.size
  | _ => True

def PackBuffer.Operation.Fits (most reserve : Nat) : Operation → Prop
  | .resize capacity => PackBuffer.sizeFor reserve capacity ≤ most
  | _ => True

def PackBuffer.runWith {α : Type} (perform : α → Operation → Answer × α) (a : α) :
    List Operation → List Answer × α
  | [] => ([], a)
  | op :: ops =>
    let (answer, a) := perform a op
    let (answers, a) := runWith perform a ops
    (answer :: answers, a)

def PackBuffer.perform (b : PackBuffer) : Operation → Answer × PackBuffer
  | .pack header payload =>
    match b.pack header payload with
    | .error failure => (some (.error failure), b)
    | .ok (length, b) => (some (.ok length), b)
  | .fill reserved => (none, b.stamp reserved)
  | .resize capacity => (none, b.resize capacity)

def PackBuffer.run (b : PackBuffer) (ops : List Operation) : List Answer × PackBuffer :=
  runWith perform b ops

/-- What is to be seen of a buffer: the room for payloads, the bytes reserved for the sink, and the
frame packed last, if one was packed since the buffer was allocated. -/
structure View where
  capacity : Nat
  reserved : Bytes
  last : Option (Wire.Header × Bytes)

namespace View

def start (reserve capacity : Nat) : View := ⟨capacity, List.replicate reserve 0, none⟩

def frame (v : View) : Bytes :=
  match v.last with
  | none => []
  | some (header, payload) => (header.announcing payload).toBytes ++ payload

def perform (v : View) : Operation → Answer × View
  | .pack header payload =>
    if v.capacity < payload.length then (some (.error (.tooLarge payload.length v.capacity)), v)
    else (some (.ok (Wire.Header.size + payload.length)), { v with last := (header, payload) })
  | .fill reserved =>
    (none, { v with
      reserved := Bytes.overwrite v.reserved 0 (reserved.take v.reserved.length) })
  | .resize capacity => (none, start v.reserved.length capacity)

def run (v : View) (ops : List Operation) : List Answer × View := PackBuffer.runWith perform v ops

end View

/-! ### One array -/

/-- A buffer as one array of at most `most` bytes. Every slice, sum and difference of sizes is
checked; `none` says that one is out of range. -/
structure Flat where
  array : Bytes
  reserve : Nat
  packed : Nat

namespace Flat

def difference? (a b : Nat) : Option Nat := if b ≤ a then some (a - b) else none

def sum? (most a b : Nat) : Option Nat := if a + b ≤ most then some (a + b) else none

def allocate (reserve capacity : Nat) : Flat :=
  ⟨List.replicate (PackBuffer.sizeFor reserve capacity) 0, reserve, 0⟩

def allocate? (most reserve capacity : Nat) : Option Flat := do
  let front ← sum? most reserve Wire.Header.size
  let size ← sum? most front capacity
  pure ⟨List.replicate size 0, reserve, 0⟩

def capacity? (f : Flat) : Option Nat := do
  let behind ← difference? f.array.length f.reserve
  difference? behind Wire.Header.size

def write? (most : Nat) (f : Flat) (header : Wire.Header) (payload : Bytes) :
    Option (Except Failure Nat × Flat) := do
  let behind ← f.array.slice? f.reserve f.array.length
  match header.writeTo behind with
  | .error fault => pure (.error (.header fault), f)
  | .ok written =>
    let array ← f.array.patch? f.reserve written
    let body ← sum? most f.reserve Wire.Header.size
    let _ ← sum? most body payload.length
    let array ← array.patch? body payload
    let length ← sum? most Wire.Header.size payload.length
    pure (.ok length, { f with array, packed := length })

def frame? (most : Nat) (f : Flat) : Option Bytes := do
  let last ← sum? most f.reserve f.packed
  f.array.slice? f.reserve last

def wire? (most : Nat) (f : Flat) : Option Bytes := do
  let last ← sum? most f.reserve f.packed
  f.array.slice? 0 last

def perform? (most : Nat) (f : Flat) : Operation → Option (Answer × Flat)
  | .pack header payload => do
    let capacity ← f.capacity?
    if capacity < payload.length then
      pure (some (.error (.tooLarge payload.length capacity)), f)
    else
      let (result, f) ← f.write? most (header.announcing payload) payload
      pure (some result, f)
  | .fill reserved => do
    let _ ← f.wire? most
    let array ← f.array.patch? 0 (reserved.take f.reserve)
    pure (none, { f with array })
  | .resize capacity => (allocate? most f.reserve capacity).map (none, ·)

def run? (most : Nat) (f : Flat) : List Operation → Option (List Answer × Flat)
  | [] => some ([], f)
  | op :: ops => do
    let (answer, f) ← f.perform? most op
    let (answers, f) ← f.run? most ops
    pure (answer :: answers, f)

theorem sum?_eq {most a b : Nat} (fits : a + b ≤ most) : sum? most a b = some (a + b) :=
  if_pos fits

theorem allocate?_eq {most reserve capacity : Nat}
    (fits : PackBuffer.sizeFor reserve capacity ≤ most) :
    allocate? most reserve capacity = some (allocate reserve capacity) := by
  have front : reserve + Wire.Header.size ≤ most := Nat.le_of_add_right_le fits
  rw [allocate?, sum?_eq front]
  dsimp only [Option.bind_eq_bind, Option.bind_some]
  rw [sum?_eq fits]
  rfl

theorem allocate?_eq_none {most reserve capacity : Nat}
    (large : ¬ PackBuffer.sizeFor reserve capacity ≤ most) :
    allocate? most reserve capacity = none := by
  have beyond : sum? most (reserve + Wire.Header.size) capacity = none := if_neg large
  rw [allocate?, sum?]
  split
  · dsimp only [Option.bind_eq_bind, Option.bind_some]
    rw [beyond]
    rfl
  · rfl

end Flat

def PackBuffer.flat (b : PackBuffer) : Flat := ⟨b.store.padded b.size, b.reserve, b.packed⟩

/-! ### What a buffer shows -/

namespace View

variable {v : View}

theorem length_frame {header : Wire.Header} {payload : Bytes}
    (last : v.last = some (header, payload)) :
    v.frame.length = Wire.Header.size + payload.length := by
  rw [frame, last, List.length_append, Wire.Header.length_toBytes]

structure Sound (v : View) (reserve : Nat) : Prop where
  reserved : v.reserved.length = reserve
  short : ∀ header payload, v.last = some (header, payload) → payload.length < UInt32.size

theorem Sound.perform {reserve : Nat} (sound : v.Sound reserve) {op : Operation}
    (short : op.Short) : (v.perform op).2.Sound reserve := by
  cases op with
  | pack header payload =>
    by_cases large : v.capacity < payload.length
    · rw [View.perform, if_pos large]
      exact sound
    · rw [View.perform, if_neg large]
      refine ⟨sound.reserved, ?_⟩
      rintro _ _ ⟨rfl, rfl⟩
      exact short
  | fill reserved =>
    refine ⟨?_, sound.short⟩
    have within : 0 + (reserved.take v.reserved.length).length ≤ v.reserved.length := by
      rw [List.length_take]
      omega
    exact (Bytes.length_overwrite _ _ _ within).trans sound.reserved
  | resize capacity =>
    refine ⟨List.length_replicate.trans sound.reserved, ?_⟩
    intro _ _ last
    cases last

theorem Sound.run {reserve : Nat} (sound : v.Sound reserve) {ops : List Operation}
    (short : ∀ op ∈ ops, op.Short) : (v.run ops).2.Sound reserve := by
  induction ops generalizing v with
  | nil => exact sound
  | cons op ops ih =>
    obtain ⟨first, rest⟩ := List.forall_mem_cons.mp short
    exact ih (sound.perform first) rest

end View

namespace PackBuffer

/-- The reserved bytes, the frame and whatever was written behind it make up the store, which stays
inside the buffer. -/
structure Shows (b : PackBuffer) (v : View) : Prop where
  size : b.size = sizeFor b.reserve v.capacity
  reserved : v.reserved.length = b.reserve
  regions : ∃ behind, b.store = v.reserved ++ v.frame ++ behind
  inside : b.store.length ≤ b.size
  packed : b.packed = v.frame.length

variable {b : PackBuffer} {v : View} {most : Nat}

theorem shows_allocate (reserve capacity : Nat) :
    (allocate reserve capacity).Shows (.start reserve capacity) where
  size := rfl
  reserved := List.length_replicate
  regions := ⟨[], by simp [allocate, View.start, View.frame]⟩
  inside := by
    simp only [allocate, List.length_replicate, sizeFor]
    omega
  packed := rfl

namespace Shows

theorem capacity_eq (shown : b.Shows v) : b.capacity = v.capacity := by
  rw [capacity, shown.size, sizeFor]
  omega

theorem frame_eq (shown : b.Shows v) : b.frame = v.frame := by
  obtain ⟨behind, store⟩ := shown.regions
  rw [frame, store, List.append_assoc, List.drop_left' shown.reserved, shown.packed]
  exact List.take_left

theorem wire_eq (shown : b.Shows v) : b.wire = v.reserved ++ v.frame := by
  obtain ⟨behind, store⟩ := shown.regions
  have count : (v.reserved ++ v.frame).length = b.reserve + b.packed := by
    rw [List.length_append, shown.reserved, shown.packed]
  rw [wire, store, List.take_left' count]

theorem isPacked_eq (shown : b.Shows v) : b.isPacked = v.last.isSome := by
  rw [isPacked, shown.packed]
  cases last : v.last with
  | none => rw [View.frame, last]; rfl
  | some frame => rw [View.length_frame last, Wire.Header.size]; simp

theorem pack (shown : b.Shows v) (header : Wire.Header) (payload : Bytes) :
    (b.perform (.pack header payload)).1 = (v.perform (.pack header payload)).1 ∧
      (b.perform (.pack header payload)).2.Shows (v.perform (.pack header payload)).2 := by
  by_cases large : v.capacity < payload.length
  · simp only [PackBuffer.perform, PackBuffer.pack, View.perform, shown.capacity_eq, if_pos large]
    exact ⟨trivial, shown⟩
  · obtain ⟨behind, store⟩ := shown.regions
    have front : b.store.take b.reserve = v.reserved := by
      rw [store, List.append_assoc, List.take_left' shown.reserved]
    have size := shown.size
    have inside := shown.inside
    have count := shown.reserved
    simp only [PackBuffer.perform, PackBuffer.pack, View.perform, shown.capacity_eq, if_neg large]
    let rest := b.store.drop (b.reserve + (Wire.Header.size + payload.length))
    refine ⟨trivial, size, count, ⟨rest, ?_⟩, ?_, (View.length_frame rfl).symm⟩
    · simp [rest, Bytes.overwrite, front, View.frame, Wire.Header.announcing]
    · simp only [Bytes.overwrite, front, List.length_append, List.length_drop,
        Wire.Header.length_toBytes]
      rw [sizeFor] at size
      omega

theorem fill (shown : b.Shows v) (reserved : Bytes) :
    (b.stamp reserved).Shows (v.perform (.fill reserved)).2 := by
  obtain ⟨behind, store⟩ := shown.regions
  have within : 0 + (reserved.take b.reserve).length ≤ v.reserved.length := by
    rw [List.length_take, shown.reserved]
    omega
  have stamped : Bytes.overwrite b.store 0 (reserved.take b.reserve) =
      Bytes.overwrite v.reserved 0 (reserved.take b.reserve) ++ v.frame ++ behind := by
    rw [store, List.append_assoc, Bytes.overwrite_append _ within, List.append_assoc]
  have count := Bytes.length_overwrite _ _ _ within
  have inside := shown.inside
  simp only [stamp, View.perform, shown.reserved]
  refine ⟨shown.size, count.trans shown.reserved, ⟨behind, stamped⟩, ?_, shown.packed⟩
  simp only [stamped, List.length_append, count]
  simp only [store, List.length_append] at inside
  exact inside

theorem resize (shown : b.Shows v) (capacity : Nat) :
    (b.resize capacity).Shows (v.perform (.resize capacity)).2 := by
  rw [PackBuffer.resize, ← shown.reserved]
  exact shows_allocate v.reserved.length capacity

theorem perform (shown : b.Shows v) (op : Operation) :
    (b.perform op).1 = (v.perform op).1 ∧ (b.perform op).2.Shows (v.perform op).2 := by
  cases op with
  | pack header payload => exact shown.pack header payload
  | fill reserved => exact ⟨rfl, shown.fill reserved⟩
  | resize capacity => exact ⟨rfl, shown.resize capacity⟩

/-! ### The array behind it -/

theorem length_array (shown : b.Shows v) : b.flat.array.length = b.size :=
  Bytes.length_padded shown.inside

theorem le_length_store (shown : b.Shows v) : b.reserve + b.packed ≤ b.store.length := by
  obtain ⟨behind, store⟩ := shown.regions
  have count := congrArg List.length store
  rw [List.length_append, List.length_append, shown.reserved, ← shown.packed] at count
  omega

theorem capacity?_flat (shown : b.Shows v) : b.flat.capacity? = some v.capacity := by
  have size : b.flat.array.length = b.reserve + Wire.Header.size + v.capacity :=
    shown.length_array.trans shown.size
  have first : Flat.difference? b.flat.array.length b.reserve =
      some (Wire.Header.size + v.capacity) := by
    rw [size, Nat.add_assoc, Flat.difference?, if_pos (Nat.le_add_right _ _),
      Nat.add_sub_cancel_left]
  have second : Flat.difference? (Wire.Header.size + v.capacity) Wire.Header.size =
      some v.capacity := by
    rw [Flat.difference?, if_pos (Nat.le_add_right _ _), Nat.add_sub_cancel_left]
  exact (congrArg (Option.bind · (Flat.difference? · Wire.Header.size)) first).trans second

theorem slice?_flat (shown : b.Shows v) {first last : Nat} (ordered : first ≤ last)
    (within : last ≤ b.store.length) :
    b.flat.array.slice? first last = some ((b.store.take last).drop first) := by
  have inside := shown.inside
  rw [Bytes.slice?, shown.length_array, if_pos ⟨ordered, by omega⟩, flat, Bytes.padded,
    List.take_append_of_le_length within]

theorem last?_flat (shown : b.Shows v) (room : b.size ≤ most) :
    Flat.sum? most b.flat.reserve b.flat.packed = some (b.reserve + b.packed) :=
  Flat.sum?_eq (Nat.le_trans shown.le_length_store (Nat.le_trans shown.inside room))

theorem frame?_flat (shown : b.Shows v) (room : b.size ≤ most) :
    b.flat.frame? most = some b.frame := by
  have slice := shown.slice?_flat (Nat.le_add_right _ _) shown.le_length_store
  rw [List.drop_take, Nat.add_sub_cancel_left] at slice
  rw [Flat.frame?, shown.last?_flat room]
  exact slice

theorem wire?_flat (shown : b.Shows v) (room : b.size ≤ most) :
    b.flat.wire? most = some b.wire := by
  rw [Flat.wire?, shown.last?_flat room]
  exact shown.slice?_flat (Nat.zero_le _) shown.le_length_store

theorem write?_flat (shown : b.Shows v) (room : b.size ≤ most) {payload : Bytes}
    (fits : payload.length ≤ v.capacity) (header : Wire.Header) :
    b.flat.write? most header payload =
      some (.ok (Wire.Header.size + payload.length),
        { b with
          store := Bytes.overwrite b.store b.reserve (header.toBytes ++ payload)
          packed := Wire.Header.size + payload.length : PackBuffer }.flat) := by
  have size : b.flat.array.length = b.reserve + Wire.Header.size + v.capacity :=
    shown.length_array.trans shown.size
  have stored := shown.le_length_store
  have behind : b.flat.array.slice? b.reserve b.flat.array.length =
      some (b.flat.array.drop b.reserve) := by
    rw [Bytes.slice?, if_pos ⟨by omega, Nat.le_refl _⟩, List.take_length]
  have left : (b.flat.array.drop b.reserve).length = Wire.Header.size + v.capacity := by
    rw [List.length_drop]
    omega
  have written : header.writeTo (b.flat.array.drop b.reserve) =
      .ok (Bytes.overwrite (b.flat.array.drop b.reserve) 0 header.toBytes) := by
    rw [Wire.Header.writeTo, if_neg (by omega)]
  have headed : b.flat.array.patch? b.reserve
      (Bytes.overwrite (b.flat.array.drop b.reserve) 0 header.toBytes) =
        some (Bytes.overwrite b.flat.array b.reserve header.toBytes) := by
    have within : 0 + header.toBytes.length ≤ (b.flat.array.drop b.reserve).length := by
      rw [Wire.Header.length_toBytes]
      omega
    have count := Bytes.length_overwrite _ _ _ within
    rw [Bytes.patch?_eq (by omega), Bytes.overwrite_behind]
    rw [Wire.Header.length_toBytes]
    omega
  have filled : (Bytes.overwrite b.flat.array b.reserve header.toBytes).patch?
      (b.reserve + Wire.Header.size) payload =
        some (Bytes.overwrite b.flat.array b.reserve (header.toBytes ++ payload)) := by
    have within : b.reserve + header.toBytes.length ≤ b.flat.array.length := by
      rw [Wire.Header.length_toBytes]
      omega
    have count := Bytes.length_overwrite _ _ _ within
    rw [Bytes.patch?_eq (by omega), ← Wire.Header.length_toBytes header,
      Bytes.overwrite_overwrite _ _ _ (by omega)]
  have padded : Bytes.overwrite b.flat.array b.reserve (header.toBytes ++ payload) =
      (Bytes.overwrite b.store b.reserve (header.toBytes ++ payload)).padded b.size := by
    have total := shown.size
    rw [sizeFor] at total
    rw [Bytes.padded_overwrite (by omega), flat]
    rw [List.length_append, Wire.Header.length_toBytes]
    omega
  have reserve : b.flat.reserve = b.reserve := rfl
  have array := shown.length_array
  simp only [Flat.write?, reserve, behind, written, headed, filled, padded, Option.bind_eq_bind,
    Option.bind_some, Option.pure_def,
    Flat.sum?_eq (show b.reserve + Wire.Header.size ≤ most by omega),
    Flat.sum?_eq (show b.reserve + Wire.Header.size + payload.length ≤ most by omega),
    Flat.sum?_eq (show Wire.Header.size + payload.length ≤ most by omega)]
  rfl

theorem fill?_flat (shown : b.Shows v) (room : b.size ≤ most) (reserved : Bytes) :
    b.flat.perform? most (.fill reserved) = some (none, (b.stamp reserved).flat) := by
  have stored := shown.le_length_store
  have inside := shown.inside
  have within : 0 + (reserved.take b.reserve).length ≤ b.flat.array.length := by
    rw [List.length_take, shown.length_array]
    omega
  have padded : Bytes.overwrite b.flat.array 0 (reserved.take b.reserve) =
      (Bytes.overwrite b.store 0 (reserved.take b.reserve)).padded b.size := by
    rw [Bytes.padded_overwrite (Nat.zero_le _), flat]
    rw [← shown.length_array]
    exact within
  have reserve : b.flat.reserve = b.reserve := rfl
  simp only [Flat.perform?, shown.wire?_flat room, reserve, Bytes.patch?_eq within, padded,
    Option.bind_eq_bind, Option.bind_some, Option.pure_def]
  rfl

theorem flat_allocate (reserve capacity : Nat) :
    (allocate reserve capacity).flat = .allocate reserve capacity := by
  have zeros : reserve + (sizeFor reserve capacity - reserve) = sizeFor reserve capacity := by
    rw [sizeFor]
    omega
  simp only [flat, allocate, Flat.allocate, Bytes.padded, List.length_replicate,
    List.replicate_append_replicate, zeros]

theorem perform?_flat (shown : b.Shows v) (room : b.size ≤ most) {op : Operation}
    (fits : op.Fits most b.reserve) :
    b.flat.perform? most op = some ((b.perform op).1, (b.perform op).2.flat) := by
  cases op with
  | pack header payload =>
    by_cases large : v.capacity < payload.length
    · simp only [Flat.perform?, shown.capacity?_flat, Option.bind_eq_bind, Option.bind_some,
        if_pos large, PackBuffer.perform, PackBuffer.pack, shown.capacity_eq]
      rfl
    · have short := Nat.not_lt.mp large
      have written := shown.write?_flat room short (header.announcing payload)
      simp only [Flat.perform?, shown.capacity?_flat, Option.bind_eq_bind, Option.bind_some,
        if_neg large, written, PackBuffer.perform, PackBuffer.pack, shown.capacity_eq]
      rfl
  | fill reserved => exact shown.fill?_flat room reserved
  | resize capacity =>
    have allocated : Flat.allocate? most b.reserve capacity =
        some (allocate b.reserve capacity).flat :=
      (Flat.allocate?_eq fits).trans (congrArg some (flat_allocate b.reserve capacity).symm)
    exact congrArg (Option.map (none, ·)) allocated

end Shows

theorem reserve_perform (b : PackBuffer) (op : Operation) :
    (b.perform op).2.reserve = b.reserve := by
  cases op with
  | pack header payload =>
    rw [PackBuffer.perform, PackBuffer.pack]
    split
    · rfl
    · next packed =>
      split at packed
      · cases packed
      · cases packed
        rfl
  | fill reserved => rfl
  | resize capacity => rfl

theorem size_perform {op : Operation} (room : b.size ≤ most) (fits : op.Fits most b.reserve) :
    (b.perform op).2.size ≤ most := by
  cases op with
  | pack header payload =>
    rw [PackBuffer.perform, PackBuffer.pack]
    split
    · exact room
    · next packed =>
      split at packed
      · cases packed
      · cases packed
        exact room
  | fill reserved => exact room
  | resize capacity => exact fits

/-! ### Runs -/

theorem Shows.run (shown : b.Shows v) (ops : List Operation) :
    (b.run ops).1 = (v.run ops).1 ∧ (b.run ops).2.Shows (v.run ops).2 := by
  induction ops generalizing b v with
  | nil => exact ⟨rfl, shown⟩
  | cons op ops ih =>
    obtain ⟨answer, shown_next⟩ := shown.perform op
    obtain ⟨answers, shown_last⟩ := ih shown_next
    have both : (b.perform op).1 :: ((b.perform op).2.run ops).1 =
        (v.perform op).1 :: ((v.perform op).2.run ops).1 := by rw [answer, answers]
    exact ⟨both, shown_last⟩

theorem Shows.run?_flat (shown : b.Shows v) (room : b.size ≤ most) {ops : List Operation}
    (fits : ∀ op ∈ ops, op.Fits most b.reserve) :
    b.flat.run? most ops = some ((b.run ops).1, (b.run ops).2.flat) ∧
      (b.run ops).2.size ≤ most := by
  induction ops generalizing b v with
  | nil => exact ⟨rfl, room⟩
  | cons op ops ih =>
    obtain ⟨first, rest⟩ := List.forall_mem_cons.mp fits
    rw [← reserve_perform b op] at rest
    obtain ⟨flat, last⟩ := ih (shown.perform op).2 (size_perform room first) rest
    refine ⟨?_, last⟩
    simp only [Flat.run?, shown.perform?_flat room first, flat, Option.bind_eq_bind,
      Option.bind_some]
    rfl

/-- A run on the array comes to its end only if all that is asked for can be allocated. -/
theorem Shows.fits_of_run? (shown : b.Shows v) (room : b.size ≤ most) {ops : List Operation}
    {out : List Answer × Flat} (ran : b.flat.run? most ops = some out) :
    ∀ op ∈ ops, op.Fits most b.reserve := by
  induction ops generalizing b v out with
  | nil => simp
  | cons op ops ih =>
    have first : op.Fits most b.reserve := by
      cases op with
      | resize capacity =>
        refine Classical.byContradiction fun large => ?_
        have none_left : Flat.allocate? most b.flat.reserve capacity = none :=
          Flat.allocate?_eq_none large
        rw [Flat.run?, Flat.perform?, none_left] at ran
        cases ran
      | _ => trivial
    refine List.forall_mem_cons.mpr ⟨first, ?_⟩
    rw [Flat.run?, shown.perform?_flat room first] at ran
    obtain ⟨_, ⟨⟩, remaining⟩ := Option.bind_eq_some_iff.mp ran
    obtain ⟨last, rest, -⟩ := Option.bind_eq_some_iff.mp remaining
    rw [← reserve_perform b op]
    exact ih (shown.perform op).2 (size_perform room first) rest

def Allocated (most reserve capacity : Nat) (ops : List Operation) : Prop :=
  sizeFor reserve capacity ≤ most ∧ ∀ op ∈ ops, op.Fits most reserve

variable {reserve capacity : Nat} {ops : List Operation}

theorem allocate?_flat (fits : sizeFor reserve capacity ≤ most) :
    Flat.allocate? most reserve capacity = some (allocate reserve capacity).flat := by
  rw [Flat.allocate?_eq fits, Shows.flat_allocate]

theorem Allocated.run? (allocated : Allocated most reserve capacity ops) :
    let ran := (allocate reserve capacity).run ops
    (Flat.allocate? most reserve capacity).bind (·.run? most ops) = some (ran.1, ran.2.flat) ∧
      ran.2.size ≤ most := by
  obtain ⟨flat, room⟩ := (shows_allocate reserve capacity).run?_flat allocated.1 allocated.2
  refine ⟨?_, room⟩
  rw [← flat]
  exact congrArg (Option.bind · (·.run? most ops)) (allocate?_flat allocated.1)

theorem allocated_of_run? {out : List Answer × Flat}
    (ran : (Flat.allocate? most reserve capacity).bind (·.run? most ops) = some out) :
    Allocated most reserve capacity ops := by
  obtain ⟨first, begun, rest⟩ := Option.bind_eq_some_iff.mp ran
  have fits : sizeFor reserve capacity ≤ most := by
    refine Decidable.byContradiction fun large => ?_
    cases begun.symm.trans (Flat.allocate?_eq_none large)
  cases begun.symm.trans (allocate?_flat fits)
  exact ⟨fits, (shows_allocate reserve capacity).fits_of_run? fits rest⟩

/-- Whatever is done to a buffer of any reserve and room, with payloads whose length can be
announced: it answers as its view does, and shows the view's room, reserved bytes and last frame.
The run on one array fails exactly if it asks for an array that cannot be allocated: all slices,
sums and differences are in range, on the way and in what is shown. -/
theorem run_shows (most reserve capacity : Nat) (ops : List Operation)
    (short : ∀ op ∈ ops, op.Short) :
    let answers := ((allocate reserve capacity).run ops).1
    let b := ((allocate reserve capacity).run ops).2
    let v := ((View.start reserve capacity).run ops).2
    let flatRun := (Flat.allocate? most reserve capacity).bind (·.run? most ops)
    answers = ((View.start reserve capacity).run ops).1 ∧
    (b.capacity = v.capacity ∧ b.isPacked = v.last.isSome ∧ b.frame = v.frame ∧
      b.wire = v.reserved ++ v.frame ∧ v.reserved.length = reserve) ∧
    (∀ header payload, v.last = some (header, payload) →
      (header.announcing payload).payloadLength.toNat = payload.length) ∧
    (flatRun = none ↔ ¬ Allocated most reserve capacity ops) ∧
    (Allocated most reserve capacity ops →
      flatRun = some (answers, b.flat) ∧ b.flat.capacity? = some b.capacity ∧
      b.flat.frame? most = some b.frame ∧ b.flat.wire? most = some b.wire) := by
  intro answers b v flatRun
  obtain ⟨told, shown⟩ := (shows_allocate reserve capacity).run ops
  have sound : v.Sound reserve := by
    refine View.Sound.run ⟨List.length_replicate, ?_⟩ short
    intro _ _ last
    cases last
  refine ⟨told, ⟨shown.capacity_eq, shown.isPacked_eq, shown.frame_eq, shown.wire_eq,
    sound.reserved⟩, ?_, ⟨?_, ?_⟩, ?_⟩
  · intro header payload last
    exact header.payloadLength_announcing (sound.short header payload last)
  · intro failed allocated
    cases failed.symm.trans allocated.run?.1
  · intro unallocated
    cases ran : flatRun with
    | none => rfl
    | some out => exact absurd (allocated_of_run? ran) unallocated
  · intro allocated
    obtain ⟨ran, room⟩ := allocated.run?
    refine ⟨ran, ?_, shown.frame?_flat room, shown.wire?_flat room⟩
    rw [shown.capacity?_flat, shown.capacity_eq]

theorem run_shows_of_short_behind_long :
    let h : Wire.Header := ⟨2, 1, 0, .empty⟩
    let ops : List Operation :=
      [.pack h [1, 2, 3, 4], .fill [9], .pack h [5], .pack h [6, 7, 8, 9, 10]]
    let b := ((allocate 2 4).run ops).2
    (∀ op ∈ ops, op.Short) ∧ b.capacity = 4 ∧
      b.wire = [9, 0] ++ ([0, 0, 0, 2, 0, 0, 0, 1, 0, 0, 0, 1, 1] ++ [5]) ∧
      b.flat.array.length = 19 ∧ b.flat.wire? 19 = some b.wire := by
  intro h ops b
  have short : ∀ op ∈ ops, op.Short := by
    simp [ops, Operation.Short, UInt32.size]
  have allocated : Allocated 19 2 4 ops := by
    simp [Allocated, ops, Operation.Fits, sizeFor, Wire.Header.size]
  obtain ⟨-, ⟨capacity, -, -, wire, -⟩, -, -, within⟩ := run_shows 19 2 4 ops short
  obtain ⟨-, -, -, flat⟩ := within allocated
  refine ⟨short, capacity, wire.trans ?_, rfl, flat⟩
  decide

end PackBuffer

end Stream

end ScreenPreview
