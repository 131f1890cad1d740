import ScreenPreview.Stream.PackBuffer
import ScreenPreview.Stream.Sink

/-!
The outlet packs frames into the wire buffer and hands them to a sink. A write is split around the
outside world: `wire?` says what is to be written and `delivered` takes what came of it.
-/
namespace ScreenPreview.Stream

structure Outlet where
  buffer : PackBuffer
  /-- Only parts of frames may be sent, which this outlet cannot do. -/
  partsOnly : Bool := false
  sentCount : UInt64 := 0
  deriving DecidableEq, Repr

namespace Outlet

def new (reserve capacity : Nat) : Outlet := { buffer := .allocate reserve capacity }

def capacity (o : Outlet) : Nat := o.buffer.capacity

/-- Pack a frame, given whether a viewer is attached. A frame that is refused leaves the packed
frame before it alone. -/
def pack (o : Outlet) (ready : Bool) (header : Wire.Header) (payload : Bytes) :
    Except Failure (Nat × Outlet) :=
  if !ready then .error .noViewer
  else if o.partsOnly then .error .partsOnly
  else do
    let (length, buffer) ← o.buffer.pack header payload
    pure (length, { o with buffer })

def wire? (o : Outlet) : Except Failure Bytes :=
  if o.buffer.isPacked then .ok o.buffer.wire else .error .nothingPacked

def delivered (o : Outlet) (d : Delivery) : Outlet :=
  let o := { o with buffer := o.buffer.stamp d.reserved }
  match d.result with
  | .ok _ => { o with sentCount := o.sentCount + 1 }
  | .error _ => o

def deliver {ω : Type} (sink : Sink ω) (o : Outlet) (w : ω) :
    Except Failure Nat × Outlet × ω :=
  match o.wire? with
  | .error failure => (.error failure, o, w)
  | .ok bytes =>
    let (d, w) := sink.write bytes w
    (d.result, o.delivered d, w)

def send {ω : Type} (sink : Sink ω) (o : Outlet) (header : Wire.Header) (payload : Bytes)
    (w : ω) : Except Failure Nat × Outlet × ω :=
  let (ready, w) := sink.isReady w
  match o.pack ready header payload with
  | .error failure => (.error failure, o, w)
  | .ok (_, o) => o.deliver sink w

def resize (o : Outlet) (capacity : Nat) : Outlet :=
  { o with buffer := o.buffer.resize capacity }

end Outlet

end ScreenPreview.Stream
