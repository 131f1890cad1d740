import ScreenPreview.Local.Host
import ScreenPreview.Local.Path

/-!
Local sockets in memory. A connection has two ends, numbered `2 * k` for the one that connected and
`2 * k + 1` for the one that is accepted. Closing an end that has unread bytes, or that nobody has
accepted, breaks the connection: the other end reads a failure, once, after what was on its way.
-/
namespace ScreenPreview.Local

abbrev Place := List String

inductive Entry where
  | file
  | directory
  | bound (listener : Listener)
  deriving DecidableEq, Repr

structure End where
  inbox : Bytes := []
  isOpen : Bool := true
  /-- The other end was closed in a way that counts as a failure, which was not told yet. -/
  isBroken : Bool := false
  deriving DecidableEq, Repr

structure Network where
  entries : List (Place × Entry) := []
  queues : Array (Option (List Peer)) := #[]
  ends : Array End := #[]

namespace Network

def partner (p : Peer) : Peer := ⟨if p.number % 2 = 0 then p.number + 1 else p.number - 1⟩

theorem partner_partner (p : Peer) : partner (partner p) = p := by
  unfold partner
  cases p
  simp only [Peer.mk.injEq]
  split <;> split <;> omega

def endOf (n : Network) (p : Peer) : End := (n.ends[p.number]?).getD { isOpen := false }

def setEnd (n : Network) (p : Peer) (e : End) : Network :=
  { n with ends := n.ends.setIfInBounds p.number e }

/-! ### Paths -/

def entry? (n : Network) : Place → Option Entry
  | [] => some .directory
  | place => n.entries.lookup place

/-- Go on from a place by one part of a path, which takes a directory. No name and a point stay
there, and two points go back; the top directory is above itself. -/
def enter (n : Network) (place : Place) (part : String) : Option Place :=
  if n.entry? place ≠ some .directory then none
  else if part = "" ∨ part = "." then some place
  else if part = ".." then some place.tail
  else if isName part then some (part :: place)
  else none

def walk (n : Network) : Place → List String → Option Place
  | place, [] => some place
  | place, part :: rest =>
    match n.enter place part with
    | some place => walk n place rest
    | none => none

def place? (n : Network) (path : String) : Option Place := n.walk [] (pathParts path)

def find? (n : Network) (path : String) : Option Entry := (n.place? path).bind n.entry?

def freePlace? (n : Network) (path : String) : Option Place :=
  (n.place? path).filter fun place => (n.entry? place).isNone

def exists? (n : Network) (path : String) : Bool := (n.find? path).isSome

def put (n : Network) (place : Place) (entry : Entry) : Network :=
  { n with entries := (place, entry) :: n.entries }

def makeFile (n : Network) (path : String) : Bool × Network :=
  match n.freePlace? path with
  | some place => (true, n.put place .file)
  | none => (n.find? path == some .file, n)

def makeDirectory (n : Network) (path : String) : Bool × Network :=
  match n.freePlace? (withoutEndSlashes path) with
  | some place => (true, n.put place .directory)
  | none => (false, n)

def remove (path : String) (n : Network) : Removal × Network :=
  match n.place? path with
  | none => (.absent, n)
  | some place =>
    match n.entry? place with
    | none => (.absent, n)
    | some .directory => (.refused "is a directory", n)
    | some _ => (.removed, { n with entries := n.entries.filter fun e => e.1 != place })

/-! ### Connections -/

def listen (path : String) (n : Network) : Except Failure Listener × Network :=
  match n.freePlace? path, decide (path.utf8ByteSize ≤ longestSocketPath) with
  | some place, true =>
    let listener := ⟨n.queues.size⟩
    (.ok listener, { n.put place (.bound listener) with queues := n.queues.push (some []) })
  | _, _ => (.error (.transport "cannot bind the name"), n)

def connect (path : String) (n : Network) : Except Failure Peer × Network :=
  match n.find? path with
  | some (.bound listener) =>
    match n.queues[listener.number]? with
    | some (some queue) =>
      let peer : Peer := ⟨n.ends.size⟩
      (.ok peer, { n with
        ends := (n.ends.push {}).push {}
        queues := n.queues.setIfInBounds listener.number (some (queue ++ [partner peer])) })
    | _ => (.error (.transport "connection refused"), n)
  | some _ => (.error (.transport "connection refused"), n)
  | none => (.error (.transport "no such name"), n)

def accept (listener : Listener) (n : Network) : Except Failure (Option Peer) × Network :=
  match n.queues[listener.number]? with
  | some (some (peer :: rest)) =>
    (.ok (some peer),
      { n with queues := n.queues.setIfInBounds listener.number (some rest) })
  | _ => (.ok none, n)

def poll (p : Peer) (n : Network) : Except Failure Bool × Network :=
  (.ok (!(n.endOf p).inbox.isEmpty || !(n.endOf (partner p)).isOpen), n)

def read (p : Peer) (most : Nat) (n : Network) : Except Failure Reading × Network :=
  let e := n.endOf p
  if !e.inbox.isEmpty then
    (.ok (.bytes (e.inbox.take most)), n.setEnd p { e with inbox := e.inbox.drop most })
  else if (n.endOf (partner p)).isOpen then (.ok .quiet, n)
  else if e.isBroken then
    (.error (.transport "connection reset"), n.setEnd p { e with isBroken := false })
  else (.ok .ended, n)

/-- Writing nothing succeeds also where nobody is left to read. -/
def write (p : Peer) (data : Bytes) (n : Network) : Except Failure Unit × Network :=
  let other := n.endOf (partner p)
  if data.isEmpty then (.ok (), n)
  else if other.isOpen then
    (.ok (), n.setEnd (partner p) { other with inbox := other.inbox ++ data })
  else (.error (.transport "broken pipe"), n)

def closeEnd (lost : Bool) (p : Peer) (n : Network) : Network :=
  let e := n.endOf p
  let other := n.endOf (partner p)
  let n := n.setEnd p { e with isOpen := false, inbox := [] }
  if lost || !e.inbox.isEmpty then n.setEnd (partner p) { other with isBroken := true } else n

def closeListener (listener : Listener) (n : Network) : Network :=
  match n.queues[listener.number]? with
  | some (some queue) =>
    queue.foldl (fun n peer => n.closeEnd true peer)
      { n with queues := n.queues.setIfInBounds listener.number none }
  | _ => n

def host : Host Network where
  remove
  listen
  connect
  accept
  poll
  read
  write
  closeListener
  closePeer := closeEnd false

def traffic (n : Network) : Nat :=
  n.ends.foldl (fun sum e => sum + e.inbox.length + 2) 2

end Network

end ScreenPreview.Local
