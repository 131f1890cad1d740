import ScreenPreview.Local.Socket
import ScreenPreview.Server.Preview

/-!
The control channel: command lines from one client after the other, each answered on the socket from
which it came. The bytes of a line that is not complete wait for the rest.
-/
namespace ScreenPreview.Server

open Local (Host Socket)

structure Channel where
  socket : Socket
  pending : Bytes := []
  deriving DecidableEq, Repr

inductive Turn where
  | idle
  | done
  | broken (failure : Failure)
  deriving DecidableEq, Repr

namespace Channel

def chunkSize : Nat := 4096

variable {ω : Type}

/-- Carry out command lines in order, and answer them. An answer that cannot be sent is lost. -/
def answer (host : Host ω) (m : Moment) :
    List String → Preview → Socket → ω → Preview × Socket × ω
  | [], p, s, w => (p, s, w)
  | line :: rest, p, s, w =>
    match p.process m line with
    | (none, p) => answer host m rest p s w
    | (some reply, p) =>
      let (_, s, w) := s.sendLine host reply w
      answer host m rest p s w

def receive (data : Bytes) (c : Channel) : List String × Channel :=
  let (lines, pending) := Control.Line.takeAll Control.Line.defaultLimit (c.pending ++ data)
  (lines, { c with pending })

def readOnce (host : Host ω) (m : Moment) (c : Channel) (p : Preview) (w : ω) :
    Channel × Preview × ω :=
  match c.socket.read host chunkSize w with
  | (.error _, socket, w) => (⟨socket, []⟩, p, w)
  | (.ok [], socket, w) => (⟨socket, if socket.peer.isSome then c.pending else []⟩, p, w)
  | (.ok data, socket, w) =>
    let (lines, c) := { c with socket }.receive data
    let (p, socket, w) := answer host m lines p c.socket w
    ({ c with socket }, p, w)

def turn (host : Host ω) (m : Moment) (c : Channel) (p : Preview) (w : ω) :
    Turn × Channel × Preview × ω :=
  match c.socket.awaitBytes host w with
  | (.ok .readable, socket, w) =>
    let (c, p, w) := { c with socket }.readOnce host m p w
    (.done, c, p, w)
  | (.ok _, socket, w) => (.idle, { c with socket }, p, w)
  | (.error _, socket, w) =>
    match socket.listenAgain host w with
    | (.ok (), socket, w) => (.done, ⟨socket, []⟩, p, w)
    | (.error failure, socket, w) => (.broken failure, { c with socket }, p, w)

end Channel

end ScreenPreview.Server
