import ScreenPreview.Bytes
import ScreenPreview.Failure
import ScreenPreview.Wire.Flags

/-! The header in front of every picture: three big-endian words and the flag byte. -/
namespace ScreenPreview.Wire

structure Header where
  width : Int32
  height : Int32
  payloadLength : UInt32
  flags : Flags
  deriving DecidableEq, Repr

namespace Header

def size : Nat := 13

def heartbeat (width height : Int32) (flags : Flags) : Header :=
  ⟨width, height, 0, flags.union .empty⟩

def isHeartbeat (h : Header) : Bool := h.flags.includes .empty

def toBytes (h : Header) : Bytes :=
  Bytes.ofWord h.width.toUInt32 ++ Bytes.ofWord h.height.toUInt32 ++
    Bytes.ofWord h.payloadLength ++ [h.flags.bits]

def ofBytes : Bytes → Except HeaderFault Header
  | w0 :: w1 :: w2 :: w3 :: h0 :: h1 :: h2 :: h3 :: l0 :: l1 :: l2 :: l3 :: f :: _ =>
    match Flags.ofBits? f with
    | none => .error .unknownFlags
    | some flags =>
      .ok ⟨(Bytes.word w0 w1 w2 w3).toInt32, (Bytes.word h0 h1 h2 h3).toInt32,
        Bytes.word l0 l1 l2 l3, flags⟩
  | _ => .error .truncated

def writeTo (h : Header) (destination : Bytes) : Except HeaderFault Bytes :=
  if destination.length < size then .error .noRoom
  else .ok (Bytes.overwrite destination 0 h.toBytes)

@[simp] theorem length_toBytes (h : Header) : h.toBytes.length = size := rfl

theorem ofBytes_append (h : Header) (known : Flags.ofBits? h.flags.bits = some h.flags)
    (rest : Bytes) : ofBytes (h.toBytes ++ rest) = .ok h := by
  obtain ⟨width, height, length, flags⟩ := h
  simp only [toBytes, Bytes.ofWord, List.cons_append, List.nil_append, ofBytes, known,
    Bytes.word_ofWord]
  rfl

theorem eq_of_ofBytes {b : Bytes} {h : Header} (read : ofBytes b = .ok h) :
    h.toBytes = b.take size := by
  unfold ofBytes at read
  split at read
  · split at read
    · cases read
    · rename_i flags found
      cases read
      simp only [toBytes, UInt32.toUInt32_toInt32, Bytes.ofWord_word, Flags.ofBits?_bits found]
      rfl
  · cases read

end Header

end ScreenPreview.Wire
