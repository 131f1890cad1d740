import ScreenPreview.Server.Pattern
import ScreenPreview.Server.Preview

/-! A source that draws at a steady rate. Looked at late, it falls behind and does not catch up. -/
namespace ScreenPreview.Server

structure Source where
  pattern : Pattern := {}
  rate : UInt8
  due : Int
  deriving DecidableEq, Repr

namespace Source

def start (rate : UInt8) (now : Int) : Source := { rate, due := now }

def frame (m : Moment) (size : Screen.Size) (s : Source) : Picture.Pixels × Source :=
  let (data, pattern) := s.pattern.draw size.width size.height
  ({ data, width := size.width, height := size.height, timestamp := m.calendar, change := 1 },
    { s with pattern, due := m.now + Pattern.interval s.rate })

variable {ω : Type}

def run (sink : Stream.Sink ω) (m : Moment) (s : Source) (f : Stream.Feed) (w : ω) :
    Source × Stream.Feed × ω :=
  if s.due ≤ m.now then
    let (frame, s) := s.frame m f.geometry.resolution.compression
    let (_, f, w) := f.offer sink m.now frame w
    (s, f, w)
  else (s, f, w)

end Source

end ScreenPreview.Server
