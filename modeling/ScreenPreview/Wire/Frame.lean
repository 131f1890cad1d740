import ScreenPreview.Wire.Header

/-!
The image stream: frames one behind the other, each a header and its payload. Taking one off a
buffer waits until it is there as a whole.
-/
namespace ScreenPreview.Wire

structure Frame where
  header : Header
  payload : Bytes
  deriving DecidableEq, Repr

namespace Frame

def defaultLimit : Nat := 64 * 1024 * 1024

/-- Take the first frame off a buffer. Gives the frame, or `none` while it is incomplete, and on
every path what is left of the buffer. -/
def take (limit : Nat) (buffer : Bytes) : Except Failure (Option Frame) × Bytes :=
  if buffer.length < Header.size then (.ok none, buffer)
  else
    match Header.ofBytes buffer with
    | .error fault => (.error (.header fault), buffer)
    | .ok header =>
      let length := header.payloadLength.toNat
      if limit < length then (.error (.tooLarge length limit), buffer)
      else if buffer.length < Header.size + length then (.ok none, buffer)
      else
        let body := buffer.drop Header.size
        (.ok (some ⟨header, body.take length⟩), body.drop length)

theorem length_of_take {limit : Nat} {buffer rest : Bytes} {frame : Frame}
    (taken : take limit buffer = (.ok (some frame), rest)) : rest.length < buffer.length := by
  unfold take at taken
  split at taken
  · simp at taken
  · rename_i long
    split at taken
    · simp at taken
    · dsimp only at taken
      split at taken
      · simp at taken
      · split at taken
        · simp at taken
        · simp only [Prod.mk.injEq, Except.ok.injEq, Option.some.injEq] at taken
          rw [← taken.2]
          simp only [List.length_drop]
          have : Header.size = 13 := rfl
          omega

/-- Take frames off a buffer until none is complete. Gives the frames, the failure that ended them
if there was one, and what is left. -/
def takeAll (limit : Nat) (buffer : Bytes) : List Frame × Option Failure × Bytes :=
  match taken : take limit buffer with
  | (.error failure, rest) => ([], some failure, rest)
  | (.ok none, rest) => ([], none, rest)
  | (.ok (some frame), rest) =>
    have := length_of_take taken
    let (frames, failure, rest) := takeAll limit rest
    (frame :: frames, failure, rest)
termination_by buffer.length

/-- The bytes of a frame. The header announces the length of the payload, whatever it said
before. -/
def toBytes (limit : Nat) (frame : Frame) : Except Failure Bytes :=
  if limit < frame.payload.length then .error (.tooLarge frame.payload.length limit)
  else
    let header := { frame.header with payloadLength := frame.payload.length.toUInt32 }
    .ok (header.toBytes ++ frame.payload)

def takeLast (limit : Nat) (buffer : Bytes) : Except Failure (Option Frame) × Bytes :=
  match take limit buffer with
  | (.ok none, rest) =>
    if rest.isEmpty then (.ok none, rest)
    else (.error (.transport "bytes remaining on stream"), rest)
  | other => other

end Frame

end ScreenPreview.Wire
