import ScreenPreview.Picture.Pixels
import ScreenPreview.Screen.Geometry
import ScreenPreview.Stream.Outlet
import ScreenPreview.Stream.RateLimit
import ScreenPreview.Stream.Stillness
import ScreenPreview.Stream.Tally
import ScreenPreview.Stream.Upkeep

/-!
The state of the screen stream. Three locks guard it, always taken in this order: the encoder, held
from the encoding of a frame until that frame is written; the outlet, held over a write; and the
state. A section is what happens under one hold of the state lock, or one use of the encoder or the
sink. Other calls may come between the sections of a call.
-/
namespace ScreenPreview.Stream

structure Settings where
  mode : Screen.Mode := .dynamic
  /-- Least time between two frames in milliseconds, zero for no limit. -/
  dropInterval : Nat := 0
  staticWindow : Nat := millis 3000
  maxPayload : Nat := 0
  timing : Upkeep.Timing := {}
  deriving DecidableEq, Repr

structure Feed where
  settings : Settings
  geometry : Screen.Geometry
  encoder : Picture.Encoder
  output : Bytes := []
  outlet : Outlet
  rateLimit : RateLimit
  stillness : Stillness
  upkeep : Upkeep
  tally : Tally
  lastPicture : Option Bytes := none
  running : Bool := false

namespace Feed

def payloadRoom (settings : Settings) (r : Screen.Resolution) : Nat :=
  if 0 < settings.maxPayload then settings.maxPayload else r.maxFrameBytes

def new (settings : Settings) (geometry : Screen.Geometry) (encoder : Picture.Encoder)
    (reserve : Nat) (now : Int) : Feed where
  settings
  geometry
  encoder
  outlet := .new reserve (payloadRoom settings geometry.resolution)
  rateLimit := { spacing := millis settings.dropInterval }
  stillness := { mode := settings.mode, window := settings.staticWindow }
  upkeep := .new settings.timing now
  tally := .new now

def capacity (f : Feed) : Nat := f.outlet.capacity

/-! ### Admission -/

inductive Admission where
  | admitted (previous : Option Int)
  | dropped
  | suppressed
  deriving DecidableEq, Repr

def admitLive (f : Feed) (now : Int) (change : Int32) : Admission × Feed :=
  if f.stillness.cardHolds change then (.suppressed, f)
  else
    let (passes, stillness) := (f.stillness.refresh now).judge change
    let f := { f with stillness }
    if !passes then (.suppressed, f)
    else
      match f.rateLimit.reserve now with
      | some (previous, rateLimit) => (.admitted previous, { f with rateLimit })
      | none => (.dropped, f)

def release (f : Feed) (reserved : Int) (previous : Option Int) : Feed :=
  { f with rateLimit := f.rateLimit.release reserved previous }

inductive LoadAdmission where
  | admitted
  | cached
  | stale
  deriving DecidableEq, Repr

def admitLoad (f : Feed) (frame : Picture.Pixels) : LoadAdmission × Feed :=
  if frame.timestamp < f.upkeep.loadStamp then (.stale, f)
  else
    let upkeep := { f.upkeep with frameStamp := frame.timestamp }
    if upkeep.loadState ≠ .finished then
      let held := ⟨frame.width, frame.height, frame.timestamp, frame.trimmed.data⟩
      (.cached, { f with upkeep := upkeep.hold held })
    else (.admitted, { f with upkeep })

/-- A load frame was encoded, which claims the slot without asking. -/
def acceptLoad (f : Feed) (now : Int) : Feed :=
  { f with rateLimit := f.rateLimit.accept now }

/-! ### Encoding and packing -/

/-- Encode a frame, of which the encoder sees no byte beyond its size. The output is cleared first,
and none is a failure. -/
def encode (f : Feed) (frame : Picture.Pixels) : Except Failure UInt8 × Feed :=
  match f.encoder frame.trimmed with
  | .error failure => (.error failure, { f with output := [] })
  | .ok (quality, picture) =>
    (if picture.isEmpty then .error (.encoding .noOutput) else .ok quality,
      { f with output := picture })

def header (f : Feed) (flags : Wire.Flags) : Wire.Header :=
  let r := f.geometry.resolution
  let flags := (flags.withIf (f.stillness.mode == .static) .static).withIf r.isFolded .folded
  ⟨r.display.width, r.display.height, 0, flags⟩

def pack (f : Feed) (ready : Bool) (header : Wire.Header) (payload : Bytes) :
    Except Failure Feed := do
  let (_, outlet) ← f.outlet.pack ready header payload
  pure { f with outlet }

def publish (f : Feed) (now : Int) : Feed :=
  { f with upkeep := f.upkeep.rendered now, lastPicture := some f.output }

def packLast (f : Feed) (ready : Bool) (flags : Wire.Flags) : Except Failure Feed :=
  match f.lastPicture with
  | none => .error .noPicture
  | some picture => f.pack ready (f.header flags) picture

/-! ### Writing -/

def write {ω : Type} (sink : Sink ω) (f : Feed) (w : ω) :
    Except Failure Nat × Feed × ω :=
  let (result, outlet, w) := f.outlet.deliver sink w
  (result, { f with outlet }, w)

def recordPicture (f : Feed) (now : Int) (bytes : Nat) : Feed :=
  { f with tally := f.tally.record bytes, upkeep := f.upkeep.sent now }

def recordHeartbeat (f : Feed) : Feed := { f with tally := f.tally.recordHeartbeat }

/-! ### The timer and control -/

def tick (f : Feed) (now : Int) : List Upkeep.Intent × Feed :=
  let stillness := f.stillness.refresh now
  let (intents, upkeep) := f.upkeep.plan now f.lastPicture.isSome
  (intents, { f with stillness, upkeep })

def closePeriod (f : Feed) (now : Int) : Option Report × Feed :=
  let (report, tally) := f.tally.close now
  (report, { f with tally })

def roomNow (f : Feed) : Nat := payloadRoom f.settings f.geometry.resolution

def resizeTo (f : Feed) (capacity : Nat) : Feed :=
  { f with outlet := f.outlet.resize capacity }

def setPartsOnly (f : Feed) (on : Bool) : Feed :=
  { f with outlet := { f.outlet with partsOnly := on } }

def setDropInterval (f : Feed) (milliseconds : Nat) : Feed :=
  { f with rateLimit := { f.rateLimit with spacing := millis milliseconds } }

def setMode (f : Feed) (mode : Screen.Mode) : Feed :=
  { f with stillness := { f.stillness with mode } }

def setCard (f : Feed) (card : Bool) : Feed :=
  { f with stillness := { f.stillness with card } }

def contentChanged (f : Feed) (now : Int) : Feed :=
  { f with stillness := f.stillness.contentChanged now }

def beginLoad (f : Feed) (stamp : Int) : Feed :=
  { f with upkeep := f.upkeep.beginLoad stamp }

def setLoadState (f : Feed) (loadState : Screen.LoadState) : Feed :=
  { f with upkeep := { f.upkeep with loadState } }

def flushEvent (f : Feed) (now : Int) (stamp : Int) : Bool × Feed :=
  let (fresh, upkeep) := f.upkeep.flushEvent stamp now
  (fresh, { f with upkeep })

end Feed

end ScreenPreview.Stream
