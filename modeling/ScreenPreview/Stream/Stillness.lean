import ScreenPreview.Screen.Mode
import ScreenPreview.Stream.Clock

/-!
Holding frames back over still content. In static mode a change of content opens a counting window,
in which every frame passes. A static card holds back frames without changes in either mode.
-/
namespace ScreenPreview.Stream

structure Stillness where
  mode : Screen.Mode
  window : Nat
  card : Bool := false
  settled : Bool := false
  counting : Bool := true
  /-- When the window opened; set by the first look at it if no change of content did. -/
  since : Option Int := none
  seeded : Bool := false
  deriving DecidableEq, Repr

namespace Stillness

def contentChanged (s : Stillness) (now : Int) : Stillness :=
  { s with settled := false, counting := true, since := some now, seeded := false }

def refresh (s : Stillness) (now : Int) : Stillness :=
  if s.counting then
    let since := s.since.getD now
    if s.window ≤ elapsed since now then
      { s with since := some since, settled := true, counting := false }
    else { s with since := some since }
  else s

/-- Whether a frame with the given change passes. Between two windows only the first unchanged
frame does. -/
def judge (s : Stillness) (change : Int32) : Bool × Stillness :=
  if s.mode = .dynamic then (true, s)
  else if s.settled then (false, s)
  else if s.counting then (true, if change = 0 then { s with seeded := true } else s)
  else if change = 0 ∧ s.seeded = false then (true, { s with seeded := true })
  else (false, s)

/-- Whether the static card holds a frame back: a negative change means that no region changed. -/
def cardHolds (s : Stillness) (change : Int32) : Bool := s.card && change < 0

def withCounters (s : Stillness) (settled counting : Bool) : Stillness :=
  { s with settled, counting }

end Stillness

end ScreenPreview.Stream
