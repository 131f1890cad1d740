import ScreenPreview.Decimal.Rounded
import ScreenPreview.Stream.Clock

/-! Counts over a period. One without a frame has no report, and its heartbeats go with it. -/
namespace ScreenPreview.Stream

structure Counts where
  frames : UInt64 := 0
  bytes : UInt64 := 0
  heartbeats : UInt64 := 0
  deriving DecidableEq, Repr

structure Report where
  counts : Counts
  length : Nat
  deriving DecidableEq, Repr

def Report.seconds (r : Report) : Float :=
  let length := max r.length (millis 1)
  Decimal.ofNat (length / 1000000000) + Decimal.ofNat (length % 1000000000) / 1000000000.0

def Report.message (r : Report) : String :=
  let seconds := r.seconds
  let length := Decimal.oneDecimal seconds
  let frameRate := Decimal.oneDecimal (Decimal.ofNat r.counts.frames.toNat / seconds)
  let byteRate := Decimal.oneDecimal (Decimal.ofNat r.counts.bytes.toNat / 1024.0 / seconds)
  s!"sent {r.counts.frames} frames in {length}s ({frameRate} fps, {byteRate} KiB/s)"

structure Tally where
  current : Counts := {}
  total : UInt64 := 0
  periodStart : Int
  deriving DecidableEq, Repr

namespace Tally

def new (now : Int) : Tally := { periodStart := now }

def record (t : Tally) (bytes : Nat) : Tally :=
  { t with
    current := { t.current with
      frames := t.current.frames + 1
      bytes := t.current.bytes + .ofNat bytes }
    total := t.total + 1 }

def recordHeartbeat (t : Tally) : Tally :=
  { t with current := { t.current with heartbeats := t.current.heartbeats + 1 } }

def close (t : Tally) (now : Int) : Option Report × Tally :=
  let next := { t with current := {}, periodStart := now }
  if t.current.frames = 0 then (none, next)
  else (some ⟨t.current, elapsed t.periodStart now⟩, next)

end Tally

end ScreenPreview.Stream
