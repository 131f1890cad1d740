import ScreenPreview.Wire.Frame

/-!
Frames that arrive in pieces.

A stream of frames may be cut anywhere: inside a header, inside a payload, between two frames.
Reading it chunk by chunk gives the frames in order and uses the stream up. The bytes left in the
buffer between two chunks are never a whole frame, and together with the chunks still to come
they spell the frames still to come; this is the invariant of the reading loop.
-/
namespace ScreenPreview.Wire.Frame

variable {limit : Nat}

def announced (frame : Frame) : Frame :=
  { frame with header :=
    { frame.header with payloadLength := frame.payload.length.toUInt32 } }

/-- The frame can be written under the limit and announced in a header. -/
structure Fits (limit : Nat) (frame : Frame) : Prop where
  within : frame.payload.length ≤ limit
  short : frame.payload.length < UInt32.size
  known : Flags.ofBits? frame.header.flags.bits = some frame.header.flags

def allToBytes (limit : Nat) : List Frame → Except Failure Bytes
  | [] => .ok []
  | frame :: rest => do
    let first ← frame.toBytes limit
    let more ← allToBytes limit rest
    pure (first ++ more)

/-- Read what arrives in chunks: a chunk joins what is left in the buffer, and frames are taken
off until none is complete. A failure ends the reading. -/
def takeChunks (limit : Nat) (buffer : Bytes) :
    List Bytes → List Frame × Option Failure × Bytes
  | [] => ([], none, buffer)
  | chunk :: chunks =>
    match takeAll limit (buffer ++ chunk) with
    | (frames, some failure, rest) => (frames, some failure, rest)
    | (frames, none, rest) =>
      let (more, failure, rest) := takeChunks limit rest chunks
      (frames ++ more, failure, rest)

/-! ### Writing -/

def written (frame : Frame) : Bytes := frame.announced.header.toBytes ++ frame.payload

theorem toBytes_of_fits {frame : Frame} (fits : Fits limit frame) :
    frame.toBytes limit = .ok frame.written := by
  have enough : ¬ limit < frame.payload.length := by have := fits.within; omega
  simp [toBytes, enough, written, announced]

theorem allToBytes_of_fits {frames : List Frame} (fits : ∀ frame ∈ frames, Fits limit frame) :
    allToBytes limit frames = .ok (frames.flatMap written) := by
  induction frames with
  | nil => rfl
  | cons frame rest ih =>
    have first := toBytes_of_fits (fits frame (by simp))
    have more := ih fun later member => fits later (by simp [member])
    rw [allToBytes, first, more]
    rfl

/-! ### Taking one frame -/

theorem payloadLength_announced {frame : Frame} (fits : Fits limit frame) :
    frame.announced.header.payloadLength.toNat = frame.payload.length :=
  UInt32.toNat_ofNat_of_lt' fits.short

theorem take_header (limit : Nat) {header : Header} (body : Bytes)
    (known : Flags.ofBits? header.flags.bits = some header.flags) :
    take limit (header.toBytes ++ body) =
      if limit < header.payloadLength.toNat then
        (.error (.tooLarge header.payloadLength.toNat limit), header.toBytes ++ body)
      else if body.length < header.payloadLength.toNat then (.ok none, header.toBytes ++ body)
      else (.ok (some ⟨header, body.take header.payloadLength.toNat⟩),
        body.drop header.payloadLength.toNat) := by
  have long : ¬ (header.toBytes ++ body).length < Header.size := by
    simp only [List.length_append, Header.length_toBytes]
    omega
  have behind : (header.toBytes ++ body).drop Header.size = body :=
    List.drop_left' (Header.length_toBytes _)
  rw [take, if_neg long, Header.ofBytes_append header known]
  simp only [behind, List.length_append, Header.length_toBytes, Nat.add_lt_add_iff_left]

theorem take_announced {frame : Frame} (fits : Fits limit frame) (body : Bytes) :
    take limit (frame.announced.header.toBytes ++ body) =
      if body.length < frame.payload.length then
        (.ok none, frame.announced.header.toBytes ++ body)
      else (.ok (some ⟨frame.announced.header, body.take frame.payload.length⟩),
        body.drop frame.payload.length) := by
  have within : ¬ limit < frame.payload.length := by have := fits.within; omega
  rw [@take_header limit frame.announced.header body fits.known, payloadLength_announced fits,
    if_neg within]

theorem take_written {frame : Frame} (fits : Fits limit frame) (rest : Bytes) :
    take limit (frame.written ++ rest) = (.ok (some frame.announced), rest) := by
  rw [written, List.append_assoc, take_announced fits]
  simp [announced]

theorem take_unfinished {frame : Frame} (fits : Fits limit frame) {part missing : Bytes}
    (cut : part ++ missing = frame.written) (more : missing ≠ []) :
    take limit part = (.ok none, part) := by
  by_cases long : part.length < Header.size
  · rw [take, if_pos long]
  · rw [written, List.append_eq_append_iff] at cut
    rcases cut with ⟨piece, header, tail⟩ | ⟨body, rfl, payload⟩
    · -- The part is the header and nothing else.
      have sizes := congrArg List.length header
      rw [List.length_append, Header.length_toBytes] at sizes
      have nothing : piece = [] := List.length_eq_zero_iff.mp (by omega)
      rw [nothing, List.append_nil] at header
      rw [nothing, List.nil_append] at tail
      have waits := take_announced fits []
      rw [List.append_nil, header] at waits
      rw [waits, if_pos (by simpa [← tail] using List.length_pos_iff.mpr more)]
    · have positive := List.length_pos_iff.mpr more
      have sizes := congrArg List.length payload
      rw [List.length_append] at sizes
      rw [take_announced fits, if_pos (by omega)]

/-! ### Taking all -/

theorem takeAll_of_waiting {buffer rest : Bytes} (waiting : take limit buffer = (.ok none, rest)) :
    takeAll limit buffer = ([], none, rest) := by
  rw [takeAll]
  split <;> simp_all

theorem takeAll_of_taken {buffer rest : Bytes} {frame : Frame}
    (taken : take limit buffer = (.ok (some frame), rest)) :
    takeAll limit buffer = (frame :: (takeAll limit rest).1, (takeAll limit rest).2) := by
  rw [takeAll]
  split
  · simp_all
  · simp_all
  · rename_i first left same
    rw [taken] at same
    cases same
    rfl

/-- Of a stream that has come in part, the frames that are complete are taken; what is left makes
no whole frame and goes on with the rest of the stream. -/
theorem takeAll_of_part {frames : List Frame} (fits : ∀ frame ∈ frames, Fits limit frame)
    {part coming : Bytes} (cut : part ++ coming = frames.flatMap written) :
    ∃ done todo left, frames = done ++ todo ∧
      takeAll limit part = (done.map announced, none, left) ∧
      take limit left = (.ok none, left) ∧ left ++ coming = todo.flatMap written := by
  induction frames generalizing part with
  | nil =>
    obtain ⟨rfl, rfl⟩ := List.append_eq_nil_iff.mp cut
    exact ⟨[], [], [], rfl, takeAll_of_waiting rfl, rfl, rfl⟩
  | cons frame rest ih =>
    have first := fits frame (by simp)
    have others : ∀ later ∈ rest, Fits limit later := fun later member =>
      fits later (by simp [member])
    rw [List.flatMap_cons] at cut
    by_cases whole : ∃ behind, part = frame.written ++ behind
    · obtain ⟨behind, rfl⟩ := whole
      rw [List.append_assoc, List.append_cancel_left_eq] at cut
      obtain ⟨done, todo, left, split, taken, waits, goes_on⟩ := ih others cut
      refine ⟨frame :: done, todo, left, by simp [split], ?_, waits, goes_on⟩
      rw [takeAll_of_taken (take_written first behind), taken, List.map_cons]
    · rcases List.append_eq_append_iff.mp cut with ⟨missing, cut_here, rfl⟩ | ⟨behind, more, -⟩
      · have more : missing ≠ [] := by
          rintro rfl
          exact whole ⟨[], by simpa using cut_here.symm⟩
        have waits := take_unfinished first cut_here.symm more
        exact ⟨[], frame :: rest, part, rfl, takeAll_of_waiting waits, waits, cut⟩
      · exact absurd ⟨behind, more⟩ whole

/-! ### Reading in chunks -/

theorem takeChunks_of_waiting {frames : List Frame} (fits : ∀ frame ∈ frames, Fits limit frame)
    {buffer : Bytes} (waiting : take limit buffer = (.ok none, buffer)) {chunks : List Bytes}
    (cut : buffer ++ chunks.flatten = frames.flatMap written) :
    takeChunks limit buffer chunks = (frames.map announced, none, []) := by
  induction chunks generalizing frames buffer with
  | nil =>
    rw [List.flatten_nil, List.append_nil] at cut
    cases frames with
    | nil =>
      subst cut
      rfl
    | cons frame rest =>
      have taken := take_written (fits frame (by simp)) (rest.flatMap written)
      rw [← List.flatMap_cons, ← cut, waiting] at taken
      cases taken
  | cons chunk chunks ih =>
    rw [List.flatten_cons, ← List.append_assoc] at cut
    obtain ⟨done, todo, left, rfl, taken, waits, goes_on⟩ := takeAll_of_part fits cut
    have others : ∀ frame ∈ todo, Fits limit frame := fun frame member =>
      fits frame (by simp [member])
    rw [takeChunks, taken]
    simp only [ih others waits goes_on, List.map_append]

/-- Frames that are written one behind the other are read back in order, each announcing its
payload, however the stream is cut; nothing fails and nothing is left. -/
theorem takeChunks_of_stream (limit : Nat) (frames : List Frame)
    (fits : ∀ frame ∈ frames, Fits limit frame) :
    ∃ stream, allToBytes limit frames = .ok stream ∧
      ∀ chunks : List Bytes, chunks.flatten = stream →
        takeChunks limit [] chunks = (frames.map announced, none, []) := by
  refine ⟨frames.flatMap written, allToBytes_of_fits fits, ?_⟩
  intro chunks cut
  exact takeChunks_of_waiting fits rfl (by simpa using cut)

def heartbeatAndPicture : List Frame :=
  [⟨⟨1080, -1, 7, .empty⟩, []⟩, ⟨⟨1080, 2340, 0, .static⟩, [0xFF, 0xD8, 0xD9]⟩]

theorem takeChunks_of_heartbeat_and_picture :
    (∀ frame ∈ heartbeatAndPicture, Fits 3 frame) ∧
    takeChunks 3 []
      [[0, 0, 4], [56, 255, 255, 255, 255, 0, 0, 0, 0, 1, 0, 0, 4, 56, 0, 0, 9, 36, 0], [],
        [0, 0, 3, 4, 0xFF, 0xD8], [0xD9]] =
      (heartbeatAndPicture.map announced, none, []) := by
  have fits : ∀ frame ∈ heartbeatAndPicture, Fits 3 frame := by
    intro frame member
    rcases List.mem_cons.mp member with rfl | member
    · exact ⟨by decide, by decide, rfl⟩
    · rcases List.mem_cons.mp member with rfl | member
      · exact ⟨by decide, by decide, rfl⟩
      · cases member
  refine ⟨fits, ?_⟩
  obtain ⟨stream, whole, read⟩ := takeChunks_of_stream 3 heartbeatAndPicture fits
  refine read _ ?_
  rw [← Except.ok.inj whole]
  decide

end ScreenPreview.Wire.Frame
