import Mathlib.Data.List.Infix
import ScreenPreview.Local.Network
import ScreenPreview.Proofs.Local.Connections
import ScreenPreview.Proofs.Stream.Packing

/-!
What the viewers of an outlet get.

An outlet on a server packs frames and writes them while viewers come and writes break off. Whatever
is called, each viewer gets whole wires from the first byte of a header on, and after a part of a
wire nothing more; the server keeps its listener, so the next viewer can be attached
(`run_delivers_whole_wires`).
-/
namespace ScreenPreview.Stream

open Local (Connection Host Listener Peer Socket)
open Local.Connection (Framed Grows Serves ended)

variable {ω : Type}

structure Packing where
  header : Wire.Header
  payload : Bytes
  deriving DecidableEq, Repr

def Packing.wire (p : Packing) : Bytes := (p.header.announcing p.payload).toBytes ++ p.payload

/-- An outlet on a server, the world around them and the connections so far, the last one first. -/
structure Link (ω : Type) where
  outlet : Outlet
  socket : Socket
  world : ω
  connections : List Connection := []

inductive Link.Move (ω : Type) where
  | pack (frame : Packing)
  | flush
  | send (frame : Packing)
  | resize (capacity : Nat)
  | restrict (partsOnly : Bool)
  | world (change : ω → ω)

namespace Link

variable (host : Host ω) (cut : Peer → Bytes → ω → Nat)

def pack (frame : Packing) (l : Link ω) : Bool × Link ω :=
  let (ready, socket, world, connections) :=
    l.socket.attach (host.recorded cut) (l.world, l.connections)
  match l.outlet.pack ready frame.header frame.payload with
  | .ok (_, outlet) => (true, { outlet, socket, world, connections })
  | .error _ => (false, { l with socket, world, connections })

def flush (l : Link ω) : Link ω :=
  let (_, outlet, socket, world, connections) :=
    l.outlet.deliver (Socket.sink (host.recorded cut)) (l.socket, l.world, l.connections)
  { outlet, socket, world, connections }

def send (frame : Packing) (l : Link ω) : Link ω :=
  let (_, outlet, socket, world, connections) :=
    l.outlet.send (Socket.sink (host.recorded cut)) frame.header frame.payload
      (l.socket, l.world, l.connections)
  { outlet, socket, world, connections }

def step (l : Link ω) : Move ω → Link ω
  | .pack frame => (l.pack host cut frame).2
  | .flush => l.flush host cut
  | .send frame => l.send host cut frame
  | .resize capacity => { l with outlet := l.outlet.resize capacity }
  | .restrict partsOnly => { l with outlet := { l.outlet with partsOnly } }
  | .world change => { l with world := change l.world }

def run (l : Link ω) (moves : List (Move ω)) : Link ω := moves.foldl (step host cut) l

def packs (l : Link ω) : Move ω → List Packing
  | .pack frame => if (l.pack host cut frame).1 then [frame] else []
  | .flush => []
  | .send frame => if (l.pack host cut frame).1 then [frame] else []
  | .resize _ => []
  | .restrict _ => []
  | .world _ => []

def packed (l : Link ω) : List (Move ω) → List Packing
  | [] => []
  | move :: moves => l.packs host cut move ++ (l.step host cut move).packed moves

variable {host cut} {l : Link ω}

theorem pack_cases (host : Host ω) (cut : Peer → Bytes → ω → Nat) (l : Link ω) (frame : Packing) :
    let attached := l.socket.attach (host.recorded cut) (l.world, l.connections)
    let beside (outlet : Outlet) : Link ω := ⟨outlet, attached.2.1, attached.2.2.1, attached.2.2.2⟩
    (∃ length outlet,
      l.outlet.pack attached.1 frame.header frame.payload = .ok (length, outlet) ∧
        l.pack host cut frame = (true, beside outlet)) ∨
      ∃ failure, l.outlet.pack attached.1 frame.header frame.payload = .error failure ∧
        l.pack host cut frame = (false, beside l.outlet) := by
  intro attached beside
  unfold pack
  cases packed : l.outlet.pack attached.1 frame.header frame.payload with
  | error failure =>
    refine Or.inr ⟨failure, rfl, ?_⟩
    simp only [attached] at packed
    simp only [packed]
    rfl
  | ok pair =>
    refine Or.inl ⟨pair.1, pair.2, rfl, ?_⟩
    simp only [attached] at packed
    simp only [packed]
    rfl

theorem send_eq (host : Host ω) (cut : Peer → Bytes → ω → Nat) (l : Link ω) (frame : Packing) :
    l.send host cut frame =
      if (l.pack host cut frame).1 then (l.pack host cut frame).2.flush host cut
      else (l.pack host cut frame).2 := by
  have sent : (Socket.sink (host.recorded cut)).isReady (l.socket, l.world, l.connections) =
      l.socket.attach (host.recorded cut) (l.world, l.connections) := rfl
  rcases pack_cases host cut l frame with
    ⟨length, outlet, packed, after⟩ | ⟨failure, refused, after⟩
  · rw [after, if_pos rfl]
    simp only [send, Outlet.send, sent, packed]
    rfl
  · rw [after, if_neg Bool.false_ne_true]
    simp only [send, Outlet.send, sent, refused]

/-! ### What a call keeps -/

def IsWire (frames : List Packing) (wire : Bytes) : Prop := ∃ frame ∈ frames, wire = frame.wire

theorem IsWire.append {frames : List Packing} {wire : Bytes} (known : IsWire frames wire)
    (more : List Packing) : IsWire (frames ++ more) wire := by
  obtain ⟨frame, member, same⟩ := known
  exact ⟨frame, List.mem_append_left more member, same⟩

structure Kept (listener : Listener) (frames : List Packing) (l : Link ω) : Prop where
  served : Socket.Served listener l.socket l.connections
  reserves : l.outlet.buffer.Reserves 0
  wire : ∀ bytes, l.outlet.wire? = .ok bytes → IsWire frames bytes
  framed : ∀ c ∈ l.connections, c.Framed (IsWire frames)

variable {listener : Listener} {frames : List Packing}

theorem Kept.append (kept : l.Kept listener frames) (more : List Packing) :
    l.Kept listener (frames ++ more) where
  served := kept.served
  reserves := kept.reserves
  wire bytes packed := (kept.wire bytes packed).append more
  framed c member := (kept.framed c member).mono fun _ known => known.append more

theorem wire?_delivered (o : Outlet) (result : Except Failure Nat) :
    (o.delivered ⟨result, []⟩).wire? = o.wire? := by
  -- A socket asks for no bytes in front of a wire, so none are put there.
  have same : o.buffer.stamp [] = o.buffer := by
    simp [PackBuffer.stamp, Bytes.overwrite]
  unfold Outlet.delivered
  rw [same]
  cases result <;> rfl

theorem Kept.pack (kept : l.Kept listener frames) (host : Host ω) (cut : Peer → Bytes → ω → Nat)
    (frame : Packing) :
    let after := l.pack host cut frame
    after.2.Kept listener (frames ++ if after.1 then [frame] else []) ∧
      ended l.connections <:+ ended after.2.connections := by
  obtain ⟨served, grows⟩ := kept.served.attach_recorded host cut l.world (IsWire frames)
  have framed := grows.framed kept.framed
  rcases pack_cases host cut l frame with
    ⟨length, outlet, packed, after⟩ | ⟨failure, refused, after⟩
  · obtain ⟨reserves, reserved, none_reserved, wire⟩ := Outlet.pack_ok kept.reserves packed
    rw [after]
    refine ⟨⟨served, reserves, ?_, ?_⟩, grows.ended_suffix⟩
    · intro bytes same
      rw [List.length_eq_zero_iff.mp none_reserved, List.nil_append] at wire
      rw [wire] at same
      cases same
      exact ⟨frame, List.mem_append_right frames List.mem_cons_self, rfl⟩
    · intro c member
      exact (framed c member).mono fun _ known => known.append [frame]
  · rw [after]
    simp only [Bool.false_eq_true, if_false, List.append_nil]
    exact ⟨⟨served, kept.reserves, kept.wire, framed⟩, grows.ended_suffix⟩

theorem Kept.flush (kept : l.Kept listener frames) (host : Host ω)
    (cut : Peer → Bytes → ω → Nat) :
    (l.flush host cut).Kept listener frames ∧
      ended l.connections <:+ ended (l.flush host cut).connections := by
  cases packed : l.outlet.wire? with
  | error failure =>
    have same : l.flush host cut = l := by
      simp only [Link.flush, Outlet.deliver, packed]
    rw [same]
    exact ⟨kept, List.suffix_refl _⟩
  | ok wire =>
    obtain ⟨served, grows⟩ := kept.served.write_recorded host cut l.world (kept.wire wire packed)
    have after : l.flush host cut =
        let written := l.socket.write (host.recorded cut) wire (l.world, l.connections)
        ⟨l.outlet.delivered ⟨written.1, []⟩, written.2.1, written.2.2.1, written.2.2.2⟩ := by
      simp only [Link.flush, Outlet.deliver, packed]
      rfl
    rw [after]
    refine ⟨⟨served, Outlet.reserves_delivered kept.reserves _, ?_, grows.framed kept.framed⟩,
      grows.ended_suffix⟩
    intro bytes same
    rw [wire?_delivered] at same
    exact kept.wire bytes same

/-- Whatever is called, what was delivered stays framed, and what has ended stays as it is. -/
theorem Kept.step (kept : l.Kept listener frames) (host : Host ω) (cut : Peer → Bytes → ω → Nat)
    (move : Move ω) :
    (l.step host cut move).Kept listener (frames ++ l.packs host cut move) ∧
      ended l.connections <:+ ended (l.step host cut move).connections := by
  have unchanged : frames ++ [] = frames := List.append_nil frames
  cases move with
  | pack frame => exact kept.pack host cut frame
  | flush =>
    rw [packs, unchanged]
    exact kept.flush host cut
  | send frame =>
    obtain ⟨packed, first⟩ := kept.pack host cut frame
    rw [Link.step, send_eq, packs]
    cases outcome : (l.pack host cut frame).1 with
    | false =>
      rw [outcome] at packed
      exact ⟨packed, first⟩
    | true =>
      rw [outcome] at packed
      obtain ⟨flushed, second⟩ := packed.flush host cut
      exact ⟨flushed, first.trans second⟩
  | resize capacity =>
    rw [packs, unchanged]
    refine ⟨⟨kept.served, kept.reserves.resize capacity, ?_, kept.framed⟩, List.suffix_refl _⟩
    intro bytes packed
    cases packed
  | restrict partsOnly =>
    rw [packs, unchanged]
    exact ⟨⟨kept.served, kept.reserves, kept.wire, kept.framed⟩, List.suffix_refl _⟩
  | world change =>
    rw [packs, unchanged]
    exact ⟨⟨kept.served, kept.reserves, kept.wire, kept.framed⟩, List.suffix_refl _⟩

theorem Kept.run (kept : l.Kept listener frames) (host : Host ω) (cut : Peer → Bytes → ω → Nat)
    (moves : List (Move ω)) :
    (l.run host cut moves).Kept listener (frames ++ l.packed host cut moves) ∧
      ended l.connections <:+ ended (l.run host cut moves).connections := by
  induction moves generalizing l frames with
  | nil =>
    rw [packed, List.append_nil]
    exact ⟨kept, List.suffix_refl _⟩
  | cons move moves ih =>
    obtain ⟨stepped, first⟩ := kept.step host cut move
    obtain ⟨reached, later⟩ := ih stepped
    rw [packed, ← List.append_assoc]
    exact ⟨reached, first.trans later⟩

/-! ### Runs of a new outlet on a bound server -/

def new (capacity : Nat) (socket : Socket) (world : ω) : Link ω :=
  { outlet := .new 0 capacity, socket, world }

theorem kept_new {socket : Socket} {listener : Listener} (nobody : socket.peer = none)
    (listening : socket.listener = some listener) (capacity : Nat) (world : ω) :
    (new capacity socket world).Kept listener [] where
  served := by
    refine ⟨listening, Or.inl ⟨nobody, ?_⟩⟩
    intro c member
    cases member
  reserves := PackBuffer.reserves_allocate 0 capacity
  wire := by
    intro bytes packed
    cases packed
  framed := by
    intro c member
    cases member

theorem header_of_framed {c : Connection} (framed : c.Framed (IsWire frames))
    (some_byte : c.bytes ≠ []) :
    ∃ frame ∈ frames,
      c.bytes.take Wire.Header.size <+: (frame.header.announcing frame.payload).toBytes := by
  have header (frame : Packing) : frame.wire.take Wire.Header.size =
      (frame.header.announcing frame.payload).toBytes := List.take_left' rfl
  obtain ⟨sent, part, bytes, whole, last⟩ := framed
  cases sent with
  | cons wire sent =>
    obtain ⟨frame, member, rfl⟩ := whole wire List.mem_cons_self
    refine ⟨frame, member, ?_⟩
    have enough : Wire.Header.size ≤ frame.wire.length := by
      rw [Packing.wire, List.length_append, Wire.Header.length_toBytes]
      omega
    rw [← header frame, bytes, List.flatten_cons, List.append_assoc,
      List.take_append_of_le_length enough]
  | nil =>
    rw [List.flatten_nil, List.nil_append] at bytes
    rcases last with rfl | ⟨-, wire, ⟨frame, member, rfl⟩, inside⟩
    · exact absurd bytes some_byte
    · refine ⟨frame, member, ?_⟩
      rw [← header frame, bytes]
      exact List.IsPrefix.take inside _

/-- However clients come and writes break off, each client gets whole wires and after a part of one
nothing more, one is attached at a time, and the server goes on listening for the next. -/
theorem run_delivers_whole_wires {host : Host ω} {path : String} {s t : Socket} {w v : ω}
    (bound : s.serve host path w = (.ok (), t, v)) (cut : Peer → Bytes → ω → Nat) (capacity : Nat)
    (moves : List (Move ω)) :
    let l := (new capacity t v).run host cut moves
    (∀ c ∈ l.connections,
      c.Framed (IsWire ((new capacity t v).packed host cut moves)) ∧
        (c.bytes ≠ [] → ∃ frame ∈ (new capacity t v).packed host cut moves,
          c.bytes.take Wire.Header.size <+: (frame.header.announcing frame.payload).toBytes)) ∧
    (∀ early late, moves = early ++ late →
      ((new capacity t v).run host cut early).connections.filter (!·.isOpen) <:+ l.connections) ∧
    (l.connections.filter (·.isOpen)).map (·.peer) = l.socket.peer.toList ∧
    ∃ listener, t.listener = some listener ∧ l.socket.listener = some listener ∧
      ∀ peer x, l.socket.peer = none → host.accept listener l.world = (.ok (some peer), x) →
        l.socket.attach host l.world = (true, { l.socket with peer := some peer }, x) := by
  intro l
  obtain ⟨nobody, listener, listening⟩ := Socket.serve_ok bound
  have start := kept_new nobody listening capacity v
  obtain ⟨kept, -⟩ := start.run host cut moves
  rw [List.nil_append] at kept
  refine ⟨?_, ?_, kept.served.serves.open_eq, listener, listening, kept.served.listening, ?_⟩
  · intro c member
    exact ⟨kept.framed c member, header_of_framed (kept.framed c member)⟩
  · rintro early late rfl
    obtain ⟨before, -⟩ := start.run host cut early
    obtain ⟨-, later⟩ := before.run host cut late
    rw [← before.served.serves.ended_eq]
    have joined : l = ((new capacity t v).run host cut early).run host cut late :=
      List.foldl_append
    rw [joined]
    exact later.trans (List.dropWhile_suffix _)
  · intro peer x gone comes
    have listens : l.socket.listener = some listener := kept.served.listening
    simp only [Socket.attach, gone, listens, comes]

/-! ### Two viewers -/

def onePixel (payload : Bytes) : Packing := ⟨⟨1, 1, 0, .none⟩, payload⟩

def twoViewers : List (Move Local.Network) :=
  [.world fun n => (n.connect "v").2, .send (onePixel [7]), .world (·.closeEnd false ⟨0⟩),
    .send (onePixel [8]), .world fun n => (n.connect "v").2, .send (onePixel [9])]

theorem run_delivers_to_two_viewers :
    let bound := ({} : Socket).serve Local.Network.host "v" {}
    let start := new 4 bound.2.1 bound.2.2
    let l := start.run Local.Network.host (fun _ _ _ => 3) twoViewers
    bound.1 = .ok () ∧
      l.connections = [⟨⟨3⟩, (onePixel [9]).wire, true⟩,
        ⟨⟨1⟩, (onePixel [7]).wire ++ (onePixel [8]).wire.take 3, false⟩] ∧
      ∀ c ∈ l.connections,
        c.Framed (IsWire (start.packed Local.Network.host (fun _ _ _ => 3) twoViewers)) := by
  intro bound start l
  have succeeded : bound.1 = .ok () := by rfl
  have same : ({} : Socket).serve Local.Network.host "v" {} = (.ok (), bound.2.1, bound.2.2) :=
    Prod.ext succeeded rfl
  obtain ⟨delivered, -⟩ := run_delivers_whole_wires same (fun _ _ _ => 3) 4 twoViewers
  refine ⟨succeeded, by decide +kernel, ?_⟩
  intro c member
  exact (delivered c member).1

end Link

end ScreenPreview.Stream
