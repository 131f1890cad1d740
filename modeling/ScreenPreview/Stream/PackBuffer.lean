import ScreenPreview.Wire.Header

/-!
The buffer in which every frame is packed: the bytes reserved for the sink, the header, and room for
the payload. A short frame leaves the end of a longer one behind it, out of sight.
-/
namespace ScreenPreview.Stream

structure PackBuffer where
  reserve : Nat
  size : Nat
  /-- The buffer as far as it was ever written; all behind it is zero. -/
  store : Bytes
  packed : Nat
  deriving DecidableEq, Repr

namespace PackBuffer

def sizeFor (reserve capacity : Nat) : Nat := reserve + Wire.Header.size + capacity

def allocate (reserve capacity : Nat) : PackBuffer :=
  ⟨reserve, sizeFor reserve capacity, List.replicate reserve 0, 0⟩

def capacity (b : PackBuffer) : Nat := b.size - b.reserve - Wire.Header.size

def isPacked (b : PackBuffer) : Bool := b.packed != 0

/-- Write a header, with its length set to that of the payload, and the payload. Gives the length
of the packed frame. -/
def pack (b : PackBuffer) (header : Wire.Header) (payload : Bytes) :
    Except Failure (Nat × PackBuffer) :=
  if b.capacity < payload.length then .error (.tooLarge payload.length b.capacity)
  else
    let header := { header with payloadLength := payload.length.toUInt32 }
    let length := Wire.Header.size + payload.length
    .ok (length, { b with
      store := Bytes.overwrite b.store b.reserve (header.toBytes ++ payload)
      packed := length })

def frame (b : PackBuffer) : Bytes := (b.store.drop b.reserve).take b.packed

def wire (b : PackBuffer) : Bytes := b.store.take (b.reserve + b.packed)

def stamp (b : PackBuffer) (reserved : Bytes) : PackBuffer :=
  { b with store := Bytes.overwrite b.store 0 (reserved.take b.reserve) }

def resize (b : PackBuffer) (capacity : Nat) : PackBuffer := allocate b.reserve capacity

theorem capacity_allocate (reserve room : Nat) : (allocate reserve room).capacity = room := by
  simp only [capacity, allocate, sizeFor]
  omega

end PackBuffer

end ScreenPreview.Stream
