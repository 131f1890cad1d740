import ScreenPreview.Stream.Sink

/-! A sink that keeps what it is given, and then fills the reserved bytes with a mark. -/
namespace ScreenPreview.Stream

structure Record where
  ready : Bool := true
  reserve : Nat := 0
  failures : Nat := 0
  writes : List Bytes := []
  deriving DecidableEq, Repr

namespace Record

def mark : UInt8 := 0xEE

def sink : Sink Record where
  isReady r := (r.ready, r)
  write data r :=
    match r.failures with
    | left + 1 => (⟨.error .notConnected, data.take r.reserve⟩, { r with failures := left })
    | 0 => (⟨.ok data.length, List.replicate r.reserve mark⟩, { r with writes := data :: r.writes })

def takeWrites (r : Record) : List Bytes × Record := (r.writes.reverse, { r with writes := [] })

end Record

end ScreenPreview.Stream
