import ScreenPreview.Local.Socket
import ScreenPreview.Server.Source
import ScreenPreview.Stream.Timers

/-! The picture stream of a service: a preview, a socket, the timers and perhaps a source. -/
namespace ScreenPreview.Server

open Local (Host Socket)

structure Broadcast where
  preview : Preview
  image : Socket
  timers : Stream.Timers
  source : Option Source

namespace Broadcast

def start (c : Config) (image : Socket) (now : Int) : Broadcast :=
  let preview := Preview.ofConfig c now
  { preview := { preview with feed := { preview.feed with running := true } }
    image
    timers := .start now
    source := if c.source.enabled then some (.start c.source.rate now) else none }

variable {ω : Type}

/-- Do what is due, the timers first. The source ends once the service is asked to stop. -/
def run (host : Host ω) (m : Moment) (running : Bool) (b : Broadcast) (w : ω) : Broadcast × ω :=
  let sink := Socket.sink host
  let (timers, f, image, w) := b.timers.run sink m.now b.preview.feed (b.image, w)
  match b.source, running with
  | some source, true =>
    let (source, f, image, w) := source.run sink m f (image, w)
    (⟨{ b.preview with feed := f }, image, timers, some source⟩, w)
  | _, _ => (⟨{ b.preview with feed := f }, image, timers, none⟩, w)

end Broadcast

end ScreenPreview.Server
