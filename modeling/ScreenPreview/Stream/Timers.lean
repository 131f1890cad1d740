import ScreenPreview.Stream.Call

/-! The timers of a feed. Each keeps to a grid of instants; looked at late, it fires once. -/
namespace ScreenPreview.Stream

structure Timers where
  tick : Int
  close : Int
  deriving DecidableEq, Repr

namespace Timers

def countPeriod : Nat := millis 60000

def start (now : Int) : Timers := ⟨now, now + countPeriod⟩

/-- The instant after `now` on the grid through `due` with the given period. -/
def following (due now : Int) (period : Nat) : Int :=
  due + ((now - due) / period + 1) * period

variable {ω : Type}

def run (sink : Sink ω) (now : Int) (t : Timers) (f : Feed) (w : ω) :
    Timers × Feed × ω :=
  let (t, f, w) :=
    if t.tick ≤ now then
      let (intents, f) := f.tick now
      let (_, f, w) := f.carryOutAll sink now intents w
      ({ t with tick := following t.tick now f.settings.timing.tick }, f, w)
    else (t, f, w)
  if t.close ≤ now then
    ({ t with close := following t.close now countPeriod }, (f.closePeriod now).2, w)
  else (t, f, w)

def runAll (sink : Sink ω) : List Int → Timers → Feed → ω → Timers × Feed × ω
  | [], t, f, w => (t, f, w)
  | now :: rest, t, f, w =>
    let (t, f, w) := run sink now t f w
    runAll sink rest t f w

def steps (now : Int) (length step : Nat) : List Int :=
  let step := max step 1
  (List.range ((length + step - 1) / step)).map fun k => now + min length ((k + 1) * step)

theorem lt_following (due now : Int) (period : Nat) (positive : 0 < period) :
    now < following due now period := by
  have split := Int.mul_ediv_add_emod (now - due) period
  have small := Int.emod_lt_of_pos (now - due) (b := period) (by omega)
  have next : following due now period = due + (period * ((now - due) / period) + period) := by
    rw [following, Int.add_mul, Int.one_mul, Int.mul_comm]
  rw [next]
  omega

end Timers

namespace Feed

def runTimers {ω : Type} (sink : Sink ω) (now : Int) (length step : Nat) (f : Feed)
    (w : ω) : Feed × ω :=
  let f := { f with running := true }
  let instants := now :: Timers.steps now length step
  let (_, f, w) := Timers.runAll sink instants (.start now) f w
  ({ f with running := false }, w)

end Feed

end ScreenPreview.Stream
