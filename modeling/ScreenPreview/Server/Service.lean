import ScreenPreview.Server.Broadcast
import ScreenPreview.Server.Channel

/-!
The preview service, told what time it is. It does what is due then: first a look at whether it is
asked to stop, then the timers, the source and the control channel.
-/
namespace ScreenPreview.Server

open Local (Host Socket)

structure Serving where
  channel : Channel
  nextLook : Int

structure Service where
  running : Bool := false
  broadcast : Option Broadcast := none
  serving : Option Serving := none
  result : Option (Except Failure Unit) := none

namespace Service

variable {ω : Type}

def lookInterval : Nat := Stream.millis 100

/-- Start a service. It has ended at once where one of its sockets cannot be bound, but the flag
stays up. -/
def start (host : Host ω) (c : Config) (names : Local.SocketNames) (now : Int) (w : ω) :
    Service × ω :=
  match ({} : Socket).serve host names.image w with
  | (.error failure, image, w) =>
    ({ running := true, result := some (.error failure) }, image.close host w)
  | (.ok (), image, w) =>
    let broadcast := some (Broadcast.start c image now)
    match ({} : Socket).serve host names.command w with
    | (.error failure, control, w) =>
      ({ running := true, broadcast, result := some (.error failure) }, control.close host w)
    | (.ok (), control, w) =>
      let serving := some ⟨{ socket := control }, now + lookInterval⟩
      ({ running := true, broadcast, serving }, w)

def stop (s : Service) : Service := { s with running := false }

def finish (host : Host ω) (result : Except Failure Unit) (s : Service) (w : ω) : Service × ω :=
  let w := match s.serving with
    | some serving => serving.channel.socket.close host w
    | none => w
  let w := match s.broadcast with
    | some b => b.image.close host w
    | none => w
  ({ running := false, result := some result }, w)

def serve (host : Host ω) (m : Moment) : Nat → Service → ω → Service × ω
  | 0, s, w => (s, w)
  | turns + 1, s, w =>
    match s.serving, s.broadcast with
    | some serving, some b =>
      match serving.channel.turn host m b.preview w with
      | (.done, channel, preview, w) =>
        let s := { s with
          serving := some ⟨channel, m.now + lookInterval⟩
          broadcast := some { b with preview } }
        if s.running then serve host m turns s w else s.finish host (.ok ()) w
      | (.idle, channel, preview, w) =>
        ({ s with
          serving := some { serving with channel }
          broadcast := some { b with preview } }, w)
      | (.broken failure, channel, preview, w) =>
        { s with
          serving := some { serving with channel }
          broadcast := some { b with preview } }.finish host (.error failure) w
    | _, _ => (s, w)

def look (host : Host ω) (now : Int) (s : Service) (w : ω) : Service × ω :=
  match s.serving with
  | none => (s, w)
  | some serving =>
    if now < serving.nextLook then (s, w)
    else if s.running then
      ({ s with serving := some { serving with nextLook := now + lookInterval } }, w)
    else s.finish host (.ok ()) w

def run (host : Host ω) (m : Moment) (turns : Nat) (s : Service) (w : ω) : Service × ω :=
  let (s, w) := s.look host m.now w
  match s.broadcast with
  | some b =>
    let (b, w) := b.run host m s.running w
    { s with broadcast := some b }.serve host m turns w
  | none => s.serve host m turns w

end Service

end ScreenPreview.Server
