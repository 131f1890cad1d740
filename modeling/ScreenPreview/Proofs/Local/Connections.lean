import Mathlib.Data.List.Infix
import ScreenPreview.Local.Socket

/-!
What is delivered on each connection of a server.

A recorded host notes the clients that it attaches, the last one first, and what each of them is
given. A write that fails has delivered some of its first bytes; how many, another function of the
world says, so that every way of breaking off is met.
-/
namespace ScreenPreview.Local

variable {ω : Type}

structure Connection where
  peer : Peer
  bytes : Bytes := []
  isOpen : Bool := true
  deriving DecidableEq, Repr

namespace Connection

def deliver (data : Bytes) (c : Connection) : Connection := { c with bytes := c.bytes ++ data }

def close (c : Connection) : Connection := { c with isOpen := false }

def change (peer : Peer) (f : Connection → Connection) : List Connection → List Connection
  | [] => []
  | c :: rest => if c.peer = peer then f c :: rest else c :: change peer f rest

theorem change_first (c : Connection) (f : Connection → Connection) (rest : List Connection) :
    change c.peer f (c :: rest) = f c :: rest := if_pos rfl

/-! ### One call -/

/-- What a call can do to the connections, given what may be written: nothing, attach a client where
nobody is attached, give the client that is attached all of a wire, or break off and close. -/
inductive Grows (wires : Bytes → Prop) : List Connection → List Connection → Prop where
  | same (all : List Connection) : Grows wires all all
  | comes (peer : Peer) (all : List Connection) : Grows wires all ({ peer } :: all)
  | whole {c : Connection} {wire : Bytes} (rest : List Connection) (attached : c.isOpen = true)
    (written : wires wire) : Grows wires (c :: rest) (c.deliver wire :: rest)
  | broken {c : Connection} {wire : Bytes} (rest : List Connection) (attached : c.isOpen = true)
    (written : wires wire) (n : Nat) :
    Grows wires (c :: rest) ((c.deliver (wire.take n)).close :: rest)

/-- The bytes are whole wires, and a part of one more only where the connection has ended. -/
def Framed (wires : Bytes → Prop) (c : Connection) : Prop :=
  ∃ sent part, c.bytes = List.flatten sent ++ part ∧ (∀ wire ∈ sent, wires wire) ∧
    (part = [] ∨ c.isOpen = false ∧ ∃ wire, wires wire ∧ part <+: wire)

variable {wires more : Bytes → Prop} {c : Connection} {all after : List Connection}

theorem Framed.mono (framed : c.Framed wires) (known : ∀ wire, wires wire → more wire) :
    c.Framed more := by
  obtain ⟨sent, part, bytes, whole, last⟩ := framed
  refine ⟨sent, part, bytes, fun wire member => known wire (whole wire member), ?_⟩
  rcases last with none_left | ⟨ended, wire, written, inside⟩
  · exact Or.inl none_left
  · exact Or.inr ⟨ended, wire, known wire written, inside⟩

theorem framed_new (wires : Bytes → Prop) (peer : Peer) : Framed wires { peer } := by
  refine ⟨[], [], rfl, ?_, Or.inl rfl⟩
  intro wire member
  cases member

theorem Framed.of_open (framed : c.Framed wires) (attached : c.isOpen = true) :
    ∃ sent, c.bytes = List.flatten sent ∧ ∀ wire ∈ sent, wires wire := by
  obtain ⟨sent, part, bytes, whole, none_left | ⟨ended, -⟩⟩ := framed
  · rw [none_left, List.append_nil] at bytes
    exact ⟨sent, bytes, whole⟩
  · rw [attached] at ended
    cases ended

theorem Framed.deliver {wire : Bytes} (framed : c.Framed wires) (attached : c.isOpen = true)
    (written : wires wire) : (c.deliver wire).Framed wires := by
  obtain ⟨sent, bytes, whole⟩ := framed.of_open attached
  refine ⟨sent ++ [wire], [], ?_, ?_, Or.inl rfl⟩
  · simp [Connection.deliver, bytes]
  · intro other member
    rcases List.mem_append.mp member with before | last
    · exact whole other before
    · rw [List.mem_singleton.mp last]
      exact written

theorem Framed.break {wire : Bytes} (framed : c.Framed wires) (attached : c.isOpen = true)
    (written : wires wire) (n : Nat) : (c.deliver (wire.take n)).close.Framed wires := by
  obtain ⟨sent, bytes, whole⟩ := framed.of_open attached
  refine ⟨sent, wire.take n, ?_, whole, Or.inr ⟨rfl, wire, written, List.take_prefix n wire⟩⟩
  simp [Connection.deliver, Connection.close, bytes]

theorem Grows.framed (grows : Grows wires all after) (framed : ∀ c ∈ all, c.Framed wires) :
    ∀ c ∈ after, c.Framed wires := by
  cases grows with
  | same => exact framed
  | comes peer => exact List.forall_mem_cons.mpr ⟨framed_new wires peer, framed⟩
  | whole rest attached written =>
    obtain ⟨first, others⟩ := List.forall_mem_cons.mp framed
    exact List.forall_mem_cons.mpr ⟨first.deliver attached written, others⟩
  | broken rest attached written n =>
    obtain ⟨first, others⟩ := List.forall_mem_cons.mp framed
    exact List.forall_mem_cons.mpr ⟨first.break attached written n, others⟩

def ended (all : List Connection) : List Connection := all.dropWhile (·.isOpen)

theorem ended_cons_of_open (attached : c.isOpen = true) (rest : List Connection) :
    ended (c :: rest) = ended rest := by
  rw [ended, List.dropWhile_cons_of_pos attached]
  rfl

theorem Grows.ended_suffix (grows : Grows wires all after) : ended all <:+ ended after := by
  cases grows with
  | same => exact List.suffix_refl _
  | comes peer =>
    rw [ended_cons_of_open rfl]
  | @whole c wire rest attached =>
    have still_open : (c.deliver wire).isOpen = true := attached
    rw [ended_cons_of_open attached, ended_cons_of_open still_open]
  | broken rest attached written n =>
    rw [ended_cons_of_open attached]
    exact (List.dropWhile_suffix _).trans (List.suffix_cons _ rest)

/-! ### The client that is attached -/

/-- At most one connection is open, the last one, and it is that of the peer. -/
def Serves (peer : Option Peer) (all : List Connection) : Prop :=
  (peer = none ∧ ∀ c ∈ all, c.isOpen = false) ∨
    ∃ c rest, all = c :: rest ∧ peer = some c.peer ∧ c.isOpen = true ∧
      ∀ d ∈ rest, d.isOpen = false

variable {peer : Option Peer}

theorem ended_of_closed (closed : ∀ c ∈ all, c.isOpen = false) : ended all = all := by
  cases all with
  | nil => rfl
  | cons c rest =>
    rw [ended, List.dropWhile_cons_of_neg]
    rw [closed c List.mem_cons_self]
    exact Bool.false_ne_true

theorem Serves.ended_eq (serves : Serves peer all) : ended all = all.filter (!·.isOpen) := by
  have rest_closed {rest : List Connection} (closed : ∀ d ∈ rest, d.isOpen = false) :
      ended rest = rest.filter (!·.isOpen) := by
    rw [ended_of_closed closed, List.filter_eq_self.mpr]
    intro d member
    rw [closed d member]
    rfl
  rcases serves with ⟨-, closed⟩ | ⟨c, rest, rfl, -, attached, closed⟩
  · exact rest_closed closed
  · rw [ended_cons_of_open attached, rest_closed closed, List.filter_cons_of_neg]
    rw [attached]
    exact Bool.false_ne_true

theorem Serves.open_eq (serves : Serves peer all) :
    (all.filter (·.isOpen)).map (·.peer) = peer.toList := by
  have none_open {rest : List Connection} (closed : ∀ d ∈ rest, d.isOpen = false) :
      rest.filter (·.isOpen) = [] := by
    refine List.filter_eq_nil_iff.mpr ?_
    intro d member
    rw [closed d member]
    exact Bool.false_ne_true
  rcases serves with ⟨rfl, closed⟩ | ⟨c, rest, rfl, rfl, attached, closed⟩
  · rw [none_open closed]
    rfl
  · rw [List.filter_cons_of_pos attached, none_open closed]
    rfl

end Connection

/-- A host whose connections are noted. -/
def Host.recorded (host : Host ω) (cut : Peer → Bytes → ω → Nat) :
    Host (ω × List Connection) where
  remove name w := ((host.remove name w.1).1, (host.remove name w.1).2, w.2)
  listen name w := ((host.listen name w.1).1, (host.listen name w.1).2, w.2)
  connect name w := ((host.connect name w.1).1, (host.connect name w.1).2, w.2)
  accept listener w :=
    match host.accept listener w.1 with
    | (.ok (some peer), v) => (.ok (some peer), v, { peer } :: w.2)
    | (other, v) => (other, v, w.2)
  poll peer w := ((host.poll peer w.1).1, (host.poll peer w.1).2, w.2)
  read peer most w := ((host.read peer most w.1).1, (host.read peer most w.1).2, w.2)
  write peer data w :=
    match host.write peer data w.1 with
    | (.ok (), v) => (.ok (), v, Connection.change peer (Connection.deliver data) w.2)
    | (.error failure, v) =>
      (.error failure, v,
        Connection.change peer (Connection.deliver (data.take (cut peer data w.1))) w.2)
  closeListener listener w := (host.closeListener listener w.1, w.2)
  closePeer peer w := (host.closePeer peer w.1, Connection.change peer Connection.close w.2)

variable {host : Host ω} {cut : Peer → Bytes → ω → Nat}

theorem Host.accept_recorded (listener : Listener) (w : ω × List Connection) :
    (∃ peer v, (host.recorded cut).accept listener w = (.ok (some peer), v, { peer } :: w.2)) ∨
      ∃ outcome v, (host.recorded cut).accept listener w = (outcome, v, w.2) ∧
        ∀ peer, outcome ≠ .ok (some peer) := by
  simp only [recorded]
  rcases host.accept listener w.1 with ⟨failure | ⟨_ | peer⟩, v⟩
  · exact Or.inr ⟨_, v, rfl, by simp⟩
  · exact Or.inr ⟨_, v, rfl, by simp⟩
  · exact Or.inl ⟨peer, v, rfl⟩

theorem Host.write_recorded (peer : Peer) (data : Bytes) (w : ω × List Connection) :
    (∃ v, (host.recorded cut).write peer data w =
      (.ok (), v, Connection.change peer (Connection.deliver data) w.2)) ∨
      ∃ failure v n, (host.recorded cut).write peer data w =
        (.error failure, v, Connection.change peer (Connection.deliver (data.take n)) w.2) := by
  simp only [recorded]
  rcases host.write peer data w.1 with ⟨failure | _, v⟩
  · exact Or.inr ⟨failure, v, _, rfl⟩
  · exact Or.inl ⟨v, rfl⟩

/-! ### A server on a recorded host -/

namespace Socket

open Connection (Grows Serves)

theorem dropPeer_peer (host : Host ω) (s : Socket) (w : ω) :
    (s.dropPeer host w).1 = { s with peer := none } := by
  unfold dropPeer
  cases peer : s.peer with
  | none => exact (congrArg (fun p => { s with peer := p }) peer : _)
  | some peer => rfl

theorem dropListener_peer (host : Host ω) (s : Socket) (w : ω) :
    (s.dropListener host w).1.peer = s.peer := by
  unfold dropListener
  cases s.listener <;> rfl

theorem serve_ok {host : Host ω} {path : String} {s t : Socket} {w v : ω}
    (bound : s.serve host path w = (.ok (), t, v)) :
    t.peer = none ∧ ∃ listener, t.listener = some listener := by
  unfold serve at bound
  have nobody := dropPeer_peer host { s with isServer := true } w
  rcases dropped : dropPeer host { s with isServer := true } w with ⟨u, x⟩
  rw [dropped] at bound nobody
  dsimp only at bound nobody
  rcases result : bind host path x with ⟨failure | listener, y⟩
  · rw [result] at bound
    cases bound
  · rw [result] at bound
    cases bound
    refine ⟨?_, listener, rfl⟩
    rw [dropListener_peer, nobody]

theorem listenAgainAfter_of_listening {α : Type} (host : Host ω) {s : Socket} {listener : Listener}
    (listening : s.listener = some listener) {peer : Peer} (attached : s.peer = some peer)
    (failure : Failure) (w : ω) :
    (s.listenAgainAfter host failure w : Except Failure α × Socket × ω) =
      (.error failure, { s with peer := none }, host.closePeer peer w) := by
  simp [listenAgainAfter, listenAgain, dropPeer, attached, listening]

structure Served (listener : Listener) (s : Socket) (all : List Connection) : Prop where
  listening : s.listener = some listener
  serves : Serves s.peer all

variable {listener : Listener} {s : Socket} {all : List Connection}

theorem Served.attach_recorded (served : Served listener s all) (host : Host ω)
    (cut : Peer → Bytes → ω → Nat) (w : ω) (wires : Bytes → Prop) :
    let after := s.attach (host.recorded cut) (w, all)
    Served listener after.2.1 after.2.2.2 ∧ Grows wires all after.2.2.2 := by
  rcases served.serves with ⟨nobody, closed⟩ | ⟨c, rest, -, attached, -, -⟩
  · simp only [attach, nobody, served.listening]
    rcases Host.accept_recorded listener (w, all) with
      ⟨peer, v, came⟩ | ⟨outcome, v, waited, nobody_came⟩
    · rw [came]
      exact ⟨⟨rfl, Or.inr ⟨{ peer }, all, rfl, rfl, rfl, closed⟩⟩, Grows.comes peer all⟩
    · rw [waited]
      rcases outcome with failure | ⟨_ | peer⟩
      · exact ⟨served, Grows.same all⟩
      · exact ⟨served, Grows.same all⟩
      · exact absurd rfl (nobody_came peer)
  · simp only [attach, attached]
    exact ⟨served, Grows.same all⟩

theorem Served.write_recorded (served : Served listener s all) (host : Host ω)
    (cut : Peer → Bytes → ω → Nat) (w : ω) {wires : Bytes → Prop} {wire : Bytes}
    (known : wires wire) :
    let after := s.write (host.recorded cut) wire (w, all)
    Served listener after.2.1 after.2.2.2 ∧ Grows wires all after.2.2.2 := by
  simp only [write]
  split
  · exact ⟨served, Grows.same all⟩
  · rcases served.serves with ⟨nobody, closed⟩ | ⟨c, rest, rfl, attached, is_open, closed⟩
    · simp only [nobody]
      exact ⟨served, Grows.same all⟩
    · simp only [attached]
      rcases Host.write_recorded c.peer wire (w, c :: rest) with ⟨v, wrote⟩ | ⟨failure, v, n, broke⟩
      · rw [wrote, Connection.change_first]
        exact ⟨⟨served.listening, Or.inr ⟨c.deliver wire, rest, rfl, attached, is_open, closed⟩⟩,
          Grows.whole rest is_open known⟩
      · rw [broke, Connection.change_first]
        simp only [listenAgainAfter_of_listening _ served.listening attached]
        have closes :
            ((host.recorded cut).closePeer c.peer (v, c.deliver (wire.take n) :: rest)).2 =
              (c.deliver (wire.take n)).close :: rest :=
          Connection.change_first (c.deliver (wire.take n)) Connection.close rest
        rw [closes]
        exact ⟨⟨served.listening, Or.inl ⟨rfl, List.forall_mem_cons.mpr ⟨rfl, closed⟩⟩⟩,
          Grows.broken rest is_open known n⟩

end Socket

end ScreenPreview.Local
