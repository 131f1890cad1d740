import ScreenPreview.Stream.Call

/-!
Several calls on one feed.

A pool is a feed and the calls that were made on it. A move carries out one section of a call, or
lets something change between two sections: a setting, the encoder, the world. A call whose next
section takes a lock waits while another call holds it; it takes the lock with that section, since
until then it does nothing that another call could see. The moves come in any order and the clock
may show anything, so what holds after every list of moves holds however the calls are interleaved.

A call reads the clock apart from its sections, a live frame before its first one and a load frame
behind it. A start carries that reading, and nothing puts it in order with the moves around it.
-/
namespace ScreenPreview.Stream

inductive Request where
  | frame (pixels : Picture.Pixels)
  | loadFrame (pixels : Picture.Pixels)
  | intent (due : Upkeep.Intent)
  | fit
  deriving DecidableEq, Repr

namespace Request

def enter (request : Request) (now : Int) (f : Feed) : Call × Feed :=
  match request with
  | .frame pixels => Call.frame f now pixels
  | .loadFrame pixels => Call.loadFrame f now pixels
  | .intent due => (Call.intent now due, f)
  | .fit => (Call.fit f, f)

def frame? : Request → Option Picture.Pixels
  | .frame pixels => some pixels
  | .loadFrame pixels => some pixels
  | .intent (.replay held) => some (Call.heldPixels held)
  | _ => none

end Request

inductive Event where
  | asked (request : Request)
  | claimed (now : Int) (previous : Option Int)
  | encoded (given : Picture.Pixels) (answer : Except Failure (UInt8 × Bytes))
  | gaveBack
  | published (picture : Bytes)
  | wrote (wire : Bytes) (result : Except Failure Nat)

abbrev Log := List (Nat × Event)

namespace Log

def own (number : Nat) (log : Log) : List Event :=
  log.filterMap fun entry => if entry.1 = number then some entry.2 else none

def latest (log : Log) : Option Bytes :=
  log.findSome? fun
    | (_, .published picture) => some picture
    | _ => none

theorem own_append (number : Nat) (log rest : Log) :
    (log ++ rest).own number = log.own number ++ rest.own number :=
  List.filterMap_append

theorem own_of_own (number : Nat) (events : List Event) :
    own number (events.map (number, ·)) = events := by
  induction events with
  | nil => rfl
  | cons event rest ih =>
    rw [List.map_cons, own, List.filterMap_cons, if_pos rfl]
    exact congrArg (event :: ·) ih

theorem own_of_others {number : Nat} {log : Log} (others : ∀ entry ∈ log, entry.1 ≠ number) :
    log.own number = [] := by
  rw [own, List.filterMap_eq_nil_iff]
  intro entry member
  rw [if_neg (others entry member)]

theorem own_of_other {number other : Nat} (differ : other ≠ number) (events : List Event) :
    own other (events.map (number, ·)) = [] := by
  apply own_of_others
  intro entry member
  obtain ⟨event, -, rfl⟩ := List.mem_map.mp member
  exact differ.symm

end Log

namespace Event

def requests (trail : List Event) : List Request :=
  trail.filterMap fun
    | asked request => some request
    | _ => none

theorem requests_append (trail rest : List Event) :
    requests (trail ++ rest) = requests trail ++ requests rest :=
  List.filterMap_append

def encodings (trail : List Event) : List (Picture.Pixels × Except Failure (UInt8 × Bytes)) :=
  trail.filterMap fun
    | encoded given answer => some (given, answer)
    | _ => none

def writes (trail : List Event) : List (Bytes × Except Failure Nat) :=
  trail.filterMap fun
    | wrote wire result => some (wire, result)
    | _ => none

end Event

/-- What changes a feed between the sections of its calls. -/
inductive Control where
  | tick
  | closePeriod
  | contentChanged
  | mode (chosen : Screen.Mode)
  | card (on : Bool)
  | beginLoad (stamp : Int)
  | loadState (reached : Screen.LoadState)
  | flushEvent (stamp : Int)
  | dropInterval (spacing : Nat)
  | partsOnly (on : Bool)
  | geometry (next : Screen.Geometry)
  | encoder (next : Picture.Encoder)

namespace Control

def apply (now : Int) (f : Feed) : Control → Feed
  | tick => (f.tick now).2
  | closePeriod => (f.closePeriod now).2
  | contentChanged => f.contentChanged now
  | mode chosen => f.setMode chosen
  | card on => f.setCard on
  | beginLoad stamp => f.beginLoad stamp
  | loadState reached => f.setLoadState reached
  | flushEvent stamp => (f.flushEvent now stamp).2
  | dropInterval spacing => f.setDropInterval spacing
  | partsOnly on => f.setPartsOnly on
  | geometry next => { f with geometry := next }
  | encoder next => { f with encoder := next }

def needs : Control → Option Call.Lock
  | partsOnly _ => some .outlet
  | _ => none

end Control

/-- A sink that is watched: every write is noted with its result, the last one first. -/
def Sink.watched {ω : Type} (sink : Sink ω) : Sink (ω × List (Bytes × Except Failure Nat)) where
  isReady := fun (w, seen) =>
    let (ready, w) := sink.isReady w
    (ready, (w, seen))
  write bytes := fun (w, seen) =>
    let (d, w) := sink.write bytes w
    (d, (w, (bytes, d.result) :: seen))

inductive Move (ω : Type) where
  | start (read : Int) (request : Request)
  | advance (now : Int) (number : Nat)
  | control (now : Int) (change : Control)
  | world (world : ω)

def Move.clock? {ω : Type} : Move ω → Option Int
  | start .. => none
  | advance now _ => some now
  | control now _ => some now
  | world _ => none

def Move.instant? {ω : Type} : Move ω → Option Int
  | start read _ => some read
  | move => move.clock?

structure Pool (ω : Type) where
  feed : Feed
  world : ω
  calls : List Call := []
  log : Log := []

namespace Call

def shows (c : Call) (f : Feed) : List Event :=
  match c with
  | encode job => [.encoded job.frame.trimmed (f.encoder job.frame.trimmed)]
  | release .. => [.gaveBack]
  | publish .. => [.published f.output]
  | _ => []

def claims : Call → List Event
  | encode ⟨_, now, .live previous⟩ => [.claimed now previous]
  | _ => []

end Call

namespace Pool

variable {ω : Type}

def free (p : Pool ω) (lock : Option Call.Lock) : Bool :=
  p.calls.all fun c => lock.all fun lock => !c.holds.contains lock

/-- A move that has to wait for a lock does nothing. -/
def step (sink : Sink ω) (p : Pool ω) : Move ω → Pool ω
  | .start now request =>
    let (c, feed) := request.enter now p.feed
    { p with
      feed
      calls := p.calls ++ [c]
      log := (c.claims ++ [Event.asked request]).map (p.calls.length, ·) ++ p.log }
  | .advance now number =>
    match p.calls[number]? with
    | none => p
    | some c =>
      if p.free c.needs then
        let (d, feed, world, seen) := c.step sink.watched now p.feed (p.world, [])
        let events := seen.map (fun write => Event.wrote write.1 write.2) ++ c.shows p.feed
        { feed, world
          calls := p.calls.set number d
          log := events.map (number, ·) ++ p.log }
      else p
  | .control now change =>
    if p.free change.needs then { p with feed := change.apply now p.feed } else p
  | .world world => { p with world }

def run (sink : Sink ω) (p : Pool ω) (moves : List (Move ω)) : Pool ω := moves.foldl (step sink) p

theorem run_append (sink : Sink ω) (p : Pool ω) (early later : List (Move ω)) :
    p.run sink (early ++ later) = (p.run sink early).run sink later :=
  List.foldl_append

def start (feed : Feed) (world : ω) : Pool ω := { feed, world }

end Pool

end ScreenPreview.Stream
