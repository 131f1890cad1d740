import ScreenPreview.Control.Line
import ScreenPreview.Local.Host
import ScreenPreview.Stream.Sink

/-!
A local socket, which serves one client at a time or is a client itself. A disconnect or a failed
read or write drops the client, and the server goes back to accepting.
-/
namespace ScreenPreview.Local

structure Socket where
  listener : Option Listener := none
  peer : Option Peer := none
  path : Option String := none
  isServer : Bool := false
  maxWrite : Nat := 0xFFFFFFFF
  deriving DecidableEq, Repr

inductive Waiting where
  | nobody
  | quiet
  | readable
  deriving DecidableEq, Repr

namespace Socket

variable {ω : Type}

def dropPeer (host : Host ω) (s : Socket) (w : ω) : Socket × ω :=
  match s.peer with
  | some peer => ({ s with peer := none }, host.closePeer peer w)
  | none => (s, w)

def dropListener (host : Host ω) (s : Socket) (w : ω) : Socket × ω :=
  match s.listener with
  | some listener => ({ s with listener := none }, host.closeListener listener w)
  | none => (s, w)

def bind (host : Host ω) (path : String) (w : ω) : Except Failure Listener × ω :=
  match host.remove path w with
  | (.refused reason, w) => (.error (.transport reason), w)
  | (.removed, w) => host.listen path w
  | (.absent, w) => host.listen path w

/-- Become a server at a path. The role changes and the peer goes also where binding fails. -/
def serve (host : Host ω) (path : String) (s : Socket) (w : ω) :
    Except Failure Unit × Socket × ω :=
  let (s, w) := { s with isServer := true }.dropPeer host w
  match bind host path w with
  | (.error failure, w) => (.error failure, s, w)
  | (.ok listener, w) =>
    let (s, w) := s.dropListener host w
    (.ok (), { s with listener := some listener, path := some path }, w)

def connect (host : Host ω) (path : String) (s : Socket) (w : ω) :
    Except Failure Unit × Socket × ω :=
  match host.connect path w with
  | (.error failure, w) => (.error failure, s, w)
  | (.ok peer, w) =>
    let (s, w) := { s with isServer := false }.dropListener host w
    let (s, w) := s.dropPeer host w
    (.ok (), { s with peer := some peer, path := some path }, w)

def attach (host : Host ω) (s : Socket) (w : ω) : Bool × Socket × ω :=
  match s.peer, s.listener with
  | some _, _ => (true, s, w)
  | none, none => (false, s, w)
  | none, some listener =>
    match host.accept listener w with
    | (.ok (some peer), w) => (true, { s with peer := some peer }, w)
    | (.ok none, w) => (false, s, w)
    | (.error _, w) => (false, s, w)

def awaitClient (host : Host ω) (s : Socket) (w : ω) : Except Failure Bool × Socket × ω :=
  match s.peer, s.listener with
  | some _, _ => (.ok true, s, w)
  | none, none => (.error .notConnected, s, w)
  | none, some listener =>
    match host.accept listener w with
    | (.ok (some peer), w) => (.ok true, { s with peer := some peer }, w)
    | (.ok none, w) => (.ok false, s, w)
    | (.error failure, w) => (.error failure, s, w)

/-- Wait until a read would give something, for a client first if nobody is attached. A client that
has just come is read from at once, whether it has sent anything or not. -/
def awaitBytes (host : Host ω) (s : Socket) (w : ω) : Except Failure Waiting × Socket × ω :=
  match s.peer with
  | some peer =>
    match host.poll peer w with
    | (.error failure, w) => (.error failure, s, w)
    | (.ok ready, w) => (.ok (if ready then .readable else .quiet), s, w)
  | none =>
    match s.awaitClient host w with
    | (.error failure, s, w) => (.error failure, s, w)
    | (.ok here, s, w) => (.ok (if here then .readable else .nobody), s, w)

/-- Drop the peer. A server goes back to accepting, for which it binds its path anew if it has
lost its listener. -/
def listenAgain (host : Host ω) (s : Socket) (w : ω) : Except Failure Unit × Socket × ω :=
  let (s, w) := s.dropPeer host w
  if !s.isServer || s.listener.isSome then (.ok (), s, w)
  else
    match s.path with
    | none => (.error .notConnected, s, w)
    | some path =>
      match bind host path w with
      | (.error failure, w) => (.error failure, s, w)
      | (.ok listener, w) => (.ok (), { s with listener := some listener }, w)

def listenAgainAfter {α : Type} (host : Host ω) (failure : Failure) (s : Socket) (w : ω) :
    Except Failure α × Socket × ω :=
  match s.listenAgain host w with
  | (.ok (), s, w) => (.error failure, s, w)
  | (.error other, s, w) => (.error other, s, w)

def read (host : Host ω) (most : Nat) (s : Socket) (w : ω) : Except Failure Bytes × Socket × ω :=
  if most = 0 then (.ok [], s, w)
  else
    match s.attach host w with
    | (false, s, w) => (.ok [], s, w)
    | (true, s, w) =>
      match s.peer with
      | none => (.ok [], s, w)
      | some peer =>
        match host.read peer most w with
        | (.ok (.bytes data), w) => (.ok data, s, w)
        | (.ok .quiet, w) => (.ok [], s, w)
        | (.ok .ended, w) =>
          let (result, s, w) := s.listenAgain host w
          (result.map fun () => [], s, w)
        | (.error failure, w) => s.listenAgainAfter host failure w

def write (host : Host ω) (data : Bytes) (s : Socket) (w : ω) : Except Failure Nat × Socket × ω :=
  if s.maxWrite < data.length then (.error (.tooLarge data.length s.maxWrite), s, w)
  else
    match s.peer with
    | none => (.error .notConnected, s, w)
    | some peer =>
      match host.write peer data w with
      | (.ok (), w) => (.ok data.length, s, w)
      | (.error failure, w) => s.listenAgainAfter host failure w

def sendLine (host : Host ω) (text : String) (s : Socket) (w : ω) :
    Except Failure Nat × Socket × ω :=
  match Control.Line.toBytes Control.Line.defaultLimit text with
  | .error failure => (.error failure, s, w)
  | .ok data => s.write host data w

def close (host : Host ω) (s : Socket) (w : ω) : ω :=
  let w := match s.isServer, s.path with
    | true, some path => (host.remove path w).2
    | _, _ => w
  let (s, w) := s.dropListener host w
  (s.dropPeer host w).2

def sink (host : Host ω) : Stream.Sink (Socket × ω) where
  isReady := fun (s, w) => s.attach host w
  write data := fun (s, w) =>
    let (result, s, w) := s.write host data w
    (⟨result, []⟩, (s, w))

end Socket

end ScreenPreview.Local
