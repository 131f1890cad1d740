import ScreenPreview.Bytes
import ScreenPreview.Screen.Mode
import ScreenPreview.Stream.Clock

/-!
What the timer sends. Instants measure silence. Stamps come from the renderer's own clock and are
never compared with instants.
-/
namespace ScreenPreview.Stream

namespace Upkeep

structure Timing where
  idleThreshold : Nat := millis 8000
  renderCeiling : Nat := millis 2000
  startupGrace : Nat := millis 5000
  resendInterval : Nat := millis 300
  tick : Nat := millis 50
  deriving DecidableEq, Repr

structure HeldFrame where
  width : Int32
  height : Int32
  timestamp : Int
  data : Bytes
  deriving DecidableEq, Repr

inductive Intent where
  | replay (frame : HeldFrame)
  | resend
  | heartbeat
  deriving DecidableEq, Repr

end Upkeep

open Upkeep

structure Upkeep where
  timing : Timing
  began : Int
  lastRender : Option Int := none
  lastSent : Option Int := none
  /-- The one extra sign of life of a renderer that never rendered is spent. -/
  graceSpent : Bool := false
  idle : Bool := false
  loadStamp : Int := 0
  frameStamp : Int := 0
  flushStamp : Int := 0
  flushTime : Int
  loadState : Screen.LoadState := .init
  held : Option HeldFrame := none
  deriving DecidableEq, Repr

namespace Upkeep

def new (timing : Timing) (now : Int) : Upkeep :=
  { timing, began := now, flushTime := now }

def rendered (u : Upkeep) (now : Int) : Upkeep :=
  { u with lastRender := some now, idle := false }

def sent (u : Upkeep) (now : Int) : Upkeep := { u with lastSent := some now }

def silence (u : Upkeep) (now : Int) : Nat :=
  elapsed (u.lastRender.getD u.began) now

/-- Whether the renderer still counts as alive after so many milliseconds of silence. One that has
never rendered counts as alive once, after the grace time. -/
def alive (u : Upkeep) (silence : UInt64) : Bool × Upkeep :=
  if u.lastRender.isSome then (millis silence.toNat < u.timing.renderCeiling, u)
  else if !u.graceSpent && u.timing.startupGrace ≤ millis silence.toNat then
    (true, { u with graceSpent := true })
  else (false, u)

/-- Whether a heartbeat is due after so many milliseconds of silence. A load newer than the last
heartbeat yields only to silence. When a heartbeat is due its time moves to `now`, and its stamp
moves up to the last load frame but never down. -/
def heartbeatDue (u : Upkeep) (now : Int) (silence : UInt64) : Bool × Upkeep :=
  let silent := decide (u.timing.idleThreshold < millis silence.toNat)
  let stale := decide (u.timing.idleThreshold < elapsed u.flushTime now)
  let due := if u.flushStamp < u.frameStamp then silent else silent || stale
  if due then (true, { u with flushTime := now, flushStamp := max u.flushStamp u.frameStamp })
  else (false, u)

/-- The renderer reports a flush event; one from before the current load is refused. -/
def flushEvent (u : Upkeep) (stamp : Int) (now : Int) : Bool × Upkeep :=
  if stamp < u.loadStamp then (false, u)
  else (true, { u with flushStamp := stamp, flushTime := now })

def hold (u : Upkeep) (frame : HeldFrame) : Upkeep := { u with held := some frame }

def beginLoad (u : Upkeep) (stamp : Int) : Upkeep :=
  { u with loadStamp := stamp, loadState := .loading }

def planReplay (u : Upkeep) : List Intent × Upkeep :=
  match u.loadState, u.held with
  | .finished, some frame => ([.replay frame], { u with held := none })
  | _, _ => ([], u)

def planResend (u : Upkeep) (now : Int) (hasPicture : Bool) : List Intent :=
  let due := match u.lastSent with
    | some last => decide (u.timing.resendInterval ≤ elapsed last now)
    | none => true
  if !u.idle && hasPicture && due then [.resend] else []

/-- The heartbeat, which starts the idle cycle. The renderer is asked for a sign of life only
outside the cycle, and the time of the last heartbeat is looked at only if it gives none. Silence is
counted in whole milliseconds, the time since the last heartbeat is not. -/
def planHeartbeat (u : Upkeep) (now : Int) : List Intent × Upkeep :=
  if u.idle then ([], u)
  else
    let silence := wholeMillis (u.silence now)
    let (alive, u) := u.alive silence
    if alive then ([], u)
    else
      let (due, u) := u.heartbeatDue now silence
      if due then ([.heartbeat], { u with idle := true }) else ([], u)

def plan (u : Upkeep) (now : Int) (hasPicture : Bool) : List Intent × Upkeep :=
  let (replay, u) := u.planReplay
  let resend := u.planResend now hasPicture
  let (heartbeat, u) := u.planHeartbeat now
  (replay ++ resend ++ heartbeat, u)

end Upkeep

end ScreenPreview.Stream
