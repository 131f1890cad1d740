import Mathlib.Data.List.Induction
import ScreenPreview.Local.Network
import ScreenPreview.Local.Socket

/-!
The names that a socket binds, and those that it removes when it is given up.

A socket that fails to become a server keeps its listener and its path, but has lost its peer and is
in the role of a server all the same. If it was a client, its path is then the name of the server to
which it was connected, and giving it up removes that name. Nothing else leads there: at every
moment of a run giving up the socket removes only names that it has bound, exactly if every attempt
to serve that failed found it with such a path or with none (`run_owns_iff`). The operating system
may answer as it likes, and other processes may change its world between two calls.
-/
namespace ScreenPreview.Local

variable {ω : Type}

inductive Deed where
  | bound (path : String)
  | removed (path : String)
  deriving DecidableEq, Repr

/-- A host that notes what is done to names, the last deed first. -/
def Host.noted (host : Host ω) : Host (ω × List Deed) where
  remove name w := ((host.remove name w.1).1, (host.remove name w.1).2, .removed name :: w.2)
  listen name w :=
    match host.listen name w.1 with
    | (.ok listener, v) => (.ok listener, v, .bound name :: w.2)
    | (.error failure, v) => (.error failure, v, w.2)
  connect name w := ((host.connect name w.1).1, (host.connect name w.1).2, w.2)
  accept listener w := ((host.accept listener w.1).1, (host.accept listener w.1).2, w.2)
  poll peer w := ((host.poll peer w.1).1, (host.poll peer w.1).2, w.2)
  read peer most w := ((host.read peer most w.1).1, (host.read peer most w.1).2, w.2)
  write peer data w := ((host.write peer data w.1).1, (host.write peer data w.1).2, w.2)
  closeListener listener w := (host.closeListener listener w.1, w.2)
  closePeer peer w := (host.closePeer peer w.1, w.2)

namespace Host

variable (host : Host ω) (w : ω × List Deed)

theorem connect_noted (name : String) :
    host.noted.connect name w =
      ((host.connect name w.1).1, (host.connect name w.1).2, w.2) := rfl

theorem accept_noted (listener : Listener) :
    host.noted.accept listener w =
      ((host.accept listener w.1).1, (host.accept listener w.1).2, w.2) := rfl

theorem poll_noted (peer : Peer) :
    host.noted.poll peer w = ((host.poll peer w.1).1, (host.poll peer w.1).2, w.2) := rfl

theorem read_noted (peer : Peer) (most : Nat) :
    host.noted.read peer most w =
      ((host.read peer most w.1).1, (host.read peer most w.1).2, w.2) := rfl

theorem write_noted (peer : Peer) (data : Bytes) :
    host.noted.write peer data w =
      ((host.write peer data w.1).1, (host.write peer data w.1).2, w.2) := rfl

end Host

namespace Socket

inductive Operation where
  | serve (path : String)
  | connect (path : String)
  | attach
  | awaitClient
  | awaitBytes
  | listenAgain
  | read (most : Nat)
  | write (data : Bytes)
  | sendLine (text : String)
  | limitWrites (most : Nat)
  deriving DecidableEq, Repr

def perform (host : Host ω) (s : Socket) (w : ω) : Operation → Socket × ω
  | .serve path => (s.serve host path w).2
  | .connect path => (s.connect host path w).2
  | .attach => (s.attach host w).2
  | .awaitClient => (s.awaitClient host w).2
  | .awaitBytes => (s.awaitBytes host w).2
  | .listenAgain => (s.listenAgain host w).2
  | .read most => (s.read host most w).2
  | .write data => (s.write host data w).2
  | .sendLine text => (s.sendLine host text w).2
  | .limitWrites most => ({ s with maxWrite := most }, w)

inductive Move (ω : Type) where
  | call (operation : Operation)
  | world (next : ω)

abbrev History (ω : Type) := Socket × ω × List Deed

def step (host : Host ω) (h : History ω) : Move ω → History ω
  | .call operation => h.1.perform host.noted h.2 operation
  | .world next => (h.1, next, h.2.2)

def run (host : Host ω) (world : ω) (moves : List (Move ω)) : History ω :=
  moves.foldl (step host) ({}, world, [])

/-- In the role of a server the socket has a path that it bound, and giving it up removes no other
name. -/
structure Owns (host : Host ω) (h : History ω) : Prop where
  bound : h.1.isServer = true → ∀ path ∈ h.1.path, .bound path ∈ h.2.2
  removes : ∃ paths : List String,
    (h.1.close host.noted h.2).2 = paths.map .removed ++ h.2.2 ∧
      ∀ path ∈ paths, .bound path ∈ h.2.2

def FailsToServe (host : Host ω) (path : String) (h : History ω) : Prop :=
  ∃ failure, (h.1.serve host.noted path h.2).1 = .error failure

/-! ### One call -/

variable (host : Host ω) (s : Socket) (w : ω × List Deed)

theorem dropPeer_noted :
    ∃ v, s.dropPeer host.noted w = ({ s with peer := none }, v, w.2) := by
  unfold dropPeer
  cases peer : s.peer with
  | none => exact ⟨w.1, by simp [← peer]⟩
  | some peer => exact ⟨_, rfl⟩

theorem dropListener_noted :
    ∃ v, s.dropListener host.noted w = ({ s with listener := none }, v, w.2) := by
  unfold dropListener
  cases listener : s.listener with
  | none => exact ⟨w.1, by simp [← listener]⟩
  | some listener => exact ⟨_, rfl⟩

theorem bind_noted (path : String) :
    (∃ failure v, bind host.noted path w = (.error failure, v, .removed path :: w.2)) ∨
      ∃ listener v, bind host.noted path w =
        (.ok listener, v, .bound path :: .removed path :: w.2) := by
  simp only [bind, Host.noted]
  rcases host.remove path w.1 with ⟨_ | _ | reason, v⟩
  case refused => exact Or.inl ⟨_, v, rfl⟩
  all_goals
    rcases answer : host.listen path v with ⟨failure | listener, u⟩
    · exact Or.inl ⟨failure, u, by simp only [answer]⟩
    · exact Or.inr ⟨listener, u, by simp only [answer]⟩

theorem serve_noted (path : String) :
    (∃ failure v, s.serve host.noted path w =
        (.error failure, { s with isServer := true, peer := none }, v, .removed path :: w.2)) ∨
      ∃ listener v, s.serve host.noted path w =
        (.ok (), { s with
          isServer := true, peer := none, listener := some listener, path := some path }, v,
          .bound path :: .removed path :: w.2) := by
  obtain ⟨x, dropped⟩ := dropPeer_noted host { s with isServer := true } w
  simp only [serve, dropped]
  rcases bind_noted host (x, w.2) path with ⟨failure, v, result⟩ | ⟨listener, v, result⟩
  · exact Or.inl ⟨failure, v, by simp only [result]⟩
  · obtain ⟨y, left⟩ := dropListener_noted host { s with isServer := true, peer := none }
      (v, .bound path :: .removed path :: w.2)
    exact Or.inr ⟨listener, y, by simp only [result, left]⟩

theorem connect_noted (path : String) :
    (∃ failure v, s.connect host.noted path w = (.error failure, s, v, w.2)) ∨
      ∃ peer v, s.connect host.noted path w =
        (.ok (), { s with
          isServer := false, peer := some peer, listener := none, path := some path }, v, w.2) := by
  simp only [connect, Host.connect_noted]
  rcases host.connect path w.1 with ⟨failure | peer, v⟩
  · exact Or.inl ⟨failure, v, rfl⟩
  · obtain ⟨x, left⟩ := dropListener_noted host { s with isServer := false } (v, w.2)
    obtain ⟨y, dropped⟩ := dropPeer_noted host { s with isServer := false, listener := none }
      (x, w.2)
    exact Or.inr ⟨peer, y, by simp only [left, dropped]⟩

structure Stays (h k : History ω) : Prop where
  role : k.1.isServer = h.1.isServer
  path : k.1.path = h.1.path
  deeds : h.2.2 <:+ k.2.2

variable {host s w}

theorem Stays.refl (h : History ω) : Stays h h := ⟨rfl, rfl, List.suffix_rfl⟩

theorem Stays.trans {h k l : History ω} (first : Stays h k) (second : Stays k l) : Stays h l :=
  ⟨second.role.trans first.role, second.path.trans first.path, first.deeds.trans second.deeds⟩

variable (host s w)

theorem stays_listenAgain : Stays (s, w) (s.listenAgain host.noted w).2 := by
  obtain ⟨v, dropped⟩ := dropPeer_noted host s w
  have dropping : Stays (s, w) ({ s with peer := none }, v, w.2) := ⟨rfl, rfl, List.suffix_rfl⟩
  simp only [listenAgain, dropped]
  split
  · exact dropping
  · cases own : s.path with
    | none => exact ⟨rfl, own.symm, List.suffix_rfl⟩
    | some path =>
      simp only
      rcases bind_noted host (v, w.2) path with ⟨failure, u, result⟩ | ⟨listener, u, result⟩
      · rw [result]
        exact ⟨rfl, own.symm, List.suffix_cons _ _⟩
      · rw [result]
        exact ⟨rfl, own.symm, (List.suffix_cons _ _).trans (List.suffix_cons _ _)⟩

theorem stays_listenAgainAfter {α : Type} (failure : Failure) :
    Stays (s, w) (s.listenAgainAfter host.noted failure w : Except Failure α × History ω).2 := by
  have again := stays_listenAgain host s w
  unfold listenAgainAfter
  rcases result : s.listenAgain host.noted w with ⟨_ | _, t, v⟩ <;> rw [result] at again <;>
    exact again

theorem stays_awaitClient : Stays (s, w) (s.awaitClient host.noted w).2 := by
  unfold awaitClient
  split
  · exact .refl (s, w)
  · exact .refl (s, w)
  · rw [Host.accept_noted]
    rcases host.accept _ w.1 with ⟨_ | _ | _, v⟩ <;> exact ⟨rfl, rfl, List.suffix_rfl⟩

theorem stays_attach : Stays (s, w) (s.attach host.noted w).2 := by
  unfold attach
  split
  · exact .refl (s, w)
  · exact .refl (s, w)
  · rw [Host.accept_noted]
    rcases host.accept _ w.1 with ⟨_ | _ | _, v⟩ <;> exact ⟨rfl, rfl, List.suffix_rfl⟩

theorem stays_awaitBytes : Stays (s, w) (s.awaitBytes host.noted w).2 := by
  unfold awaitBytes
  split
  · rw [Host.poll_noted]
    rcases host.poll _ w.1 with ⟨_ | _, v⟩ <;> exact ⟨rfl, rfl, List.suffix_rfl⟩
  · have awaits := stays_awaitClient host s w
    rcases result : s.awaitClient host.noted w with ⟨_ | _, t, v⟩ <;> rw [result] at awaits <;>
      exact awaits

theorem stays_read (most : Nat) : Stays (s, w) (s.read host.noted most w).2 := by
  unfold read
  split
  · exact .refl (s, w)
  · have attaches := stays_attach host s w
    rcases result : s.attach host.noted w with ⟨_ | _, t, v⟩
    · rw [result] at attaches
      exact attaches
    · rw [result] at attaches
      simp only
      cases t.peer with
      | none => exact attaches
      | some peer =>
        simp only
        rw [Host.read_noted]
        have quiet (u : ω) : Stays (s, w) (t, u, v.2) :=
          attaches.trans ⟨rfl, rfl, List.suffix_rfl⟩
        rcases host.read peer most v.1 with ⟨failure | _ | _ | _, u⟩
        · exact (quiet u).trans (stays_listenAgainAfter host t (u, v.2) failure)
        · exact quiet u
        · exact quiet u
        · exact (quiet u).trans (stays_listenAgain host t (u, v.2))

theorem stays_write (data : Bytes) : Stays (s, w) (s.write host.noted data w).2 := by
  unfold write
  split
  · exact .refl (s, w)
  · cases s.peer with
    | none => exact .refl (s, w)
    | some peer =>
      simp only
      rw [Host.write_noted]
      have quiet (v : ω) : Stays (s, w) (s, v, w.2) := ⟨rfl, rfl, List.suffix_rfl⟩
      rcases host.write peer data w.1 with ⟨failure | _, v⟩
      · exact (quiet v).trans (stays_listenAgainAfter host s (v, w.2) failure)
      · exact quiet v

theorem stays_sendLine (text : String) : Stays (s, w) (s.sendLine host.noted text w).2 := by
  unfold sendLine
  split
  · exact .refl (s, w)
  · exact stays_write host s w _

/-! ### Runs -/

variable {host : Host ω} {h k : History ω}

theorem close_noted (host : Host ω) (s : Socket) (w : ω × List Deed) :
    (s.close host.noted w).2 =
      (if s.isServer then s.path.toList else []).map .removed ++ w.2 := by
  have quiet (v : ω × List Deed) :
      ((s.dropListener host.noted v).1.dropPeer host.noted (s.dropListener host.noted v).2).2.2 =
        v.2 := by
    obtain ⟨u, left⟩ := dropListener_noted host s v
    obtain ⟨x, dropped⟩ := dropPeer_noted host { s with listener := none } (u, v.2)
    rw [left, dropped]
  unfold close
  cases role : s.isServer with
  | false => exact quiet w
  | true =>
    cases own : s.path with
    | none => exact quiet w
    | some path => exact quiet (host.noted.remove path w).2

theorem owns_iff :
    Owns host h ↔ (h.1.isServer = true → ∀ path ∈ h.1.path, .bound path ∈ h.2.2) := by
  refine ⟨Owns.bound, fun bound => ⟨bound, _, close_noted host h.1 h.2, ?_⟩⟩
  intro path member
  split at member
  · rename_i server
    exact bound server path (Option.mem_toList.mp member)
  · cases member

theorem Owns.stays (owns : Owns host h) (stays : Stays h k) : Owns host k := by
  refine owns_iff.mpr fun server path own => ?_
  rw [stays.role] at server
  rw [stays.path] at own
  exact stays.deeds.subset (owns.bound server path own)

/-- A failed attempt to serve is the only move that can leave a socket with a name that it did not
bind. -/
theorem Owns.step (owns : Owns host h) (move : Move ω)
    (known : ∀ path, move = .call (.serve path) → FailsToServe host path h →
      ∀ own ∈ h.1.path, .bound own ∈ h.2.2) : Owns host (Socket.step host h move) := by
  obtain ⟨s, w⟩ := h
  cases move with
  | world next => exact owns.stays ⟨rfl, rfl, List.suffix_rfl⟩
  | call operation =>
    cases operation with
    | serve path =>
      simp only [Socket.step, perform]
      rcases serve_noted host s w path with ⟨failure, v, failed⟩ | ⟨listener, v, served⟩
      · rw [failed]
        refine owns_iff.mpr fun _ own has => ?_
        exact List.mem_cons_of_mem _ (known path rfl ⟨failure, by simp only [failed]⟩ own has)
      · rw [served]
        refine owns_iff.mpr fun _ own has => ?_
        rw [← Option.some.inj has]
        exact List.mem_cons_self
    | connect path =>
      simp only [Socket.step, perform]
      rcases connect_noted host s w path with ⟨failure, v, failed⟩ | ⟨peer, v, connected⟩
      · rw [failed]
        exact owns.stays ⟨rfl, rfl, List.suffix_rfl⟩
      · rw [connected]
        exact owns_iff.mpr fun server => by cases server
    | attach => exact owns.stays (stays_attach host s w)
    | awaitClient => exact owns.stays (stays_awaitClient host s w)
    | awaitBytes => exact owns.stays (stays_awaitBytes host s w)
    | listenAgain => exact owns.stays (stays_listenAgain host s w)
    | read most => exact owns.stays (stays_read host s w most)
    | write data => exact owns.stays (stays_write host s w data)
    | sendLine text => exact owns.stays (stays_sendLine host s w text)
    | limitWrites most => exact owns.stays ⟨rfl, rfl, List.suffix_rfl⟩

theorem run_concat (host : Host ω) (world : ω) (past : List (Move ω)) (move : Move ω) :
    run host world (past ++ [move]) = step host (run host world past) move := by
  rw [run, List.foldl_append]
  rfl

theorem run_serve_of_fails {host : Host ω} {world : ω} {past : List (Move ω)} {path : String}
    (fails : FailsToServe host path (run host world past)) :
    ∃ v, run host world (past ++ [.call (.serve path)]) =
      ({ (run host world past).1 with isServer := true, peer := none }, v,
        .removed path :: (run host world past).2.2) := by
  rw [run_concat]
  obtain ⟨failure, refused⟩ := fails
  simp only [step, perform]
  rcases serve_noted host (run host world past).1 (run host world past).2 path with
    ⟨_, v, failed⟩ | ⟨_, v, served⟩
  · exact ⟨v, by rw [failed]⟩
  · rw [served] at refused
    cases refused

theorem owns_run {host : Host ω} {world : ω} {moves : List (Move ω)}
    (known : ∀ past path, past ++ [.call (.serve path)] <+: moves →
      FailsToServe host path (run host world past) →
        ∀ own ∈ (run host world past).1.path, .bound own ∈ (run host world past).2.2) :
    Owns host (run host world moves) := by
  induction moves using List.reverseRecOn with
  | nil => exact owns_iff.mpr fun server => by cases server
  | append_singleton moves move ih =>
    have owns := ih fun past path inside =>
      known past path (inside.trans (List.prefix_append moves [move]))
    rw [run_concat]
    refine owns.step move ?_
    rintro path rfl fails
    exact known moves path List.prefix_rfl fails

/-- A failed attempt to serve leaves the listener and the path, and it leaves the role and the peer
exactly to a server to which nobody is attached. At every moment of a run a socket in the role of a
server has bound its path, and giving it up removes no other name, exactly if each attempt that
failed found it with a path that it had bound, or with none. -/
theorem run_owns_iff (host : Host ω) (world : ω) (moves : List (Move ω)) :
    (∀ past path, FailsToServe host path (run host world past) →
      let before := (run host world past).1
      let after := (run host world (past ++ [.call (.serve path)])).1
      after = { before with isServer := true, peer := none } ∧
        (after = before ↔ before.isServer = true ∧ before.peer = none)) ∧
    ((∀ past, past <+: moves → Owns host (run host world past)) ↔
      ∀ past path, past ++ [.call (.serve path)] <+: moves →
        FailsToServe host path (run host world past) →
          ∀ own ∈ (run host world past).1.path, .bound own ∈ (run host world past).2.2) := by
  refine ⟨?_, ?_, ?_⟩
  · intro past path fails
    obtain ⟨v, taken⟩ := run_serve_of_fails fails
    rw [taken]
    refine ⟨rfl, ?_⟩
    constructor
    · intro same
      rw [← same]
      exact ⟨rfl, rfl⟩
    · rintro ⟨server, nobody⟩
      simp only [← server, ← nobody]
  · intro owns past path inside fails own has
    obtain ⟨v, taken⟩ := run_serve_of_fails fails
    have after := (owns _ inside).bound
    rw [taken] at after
    rcases List.mem_cons.mp (after rfl own has) with same | before
    · cases same
    · exact before
  · intro known past inside
    exact owns_run fun earlier path within => known earlier path (within.trans inside)

theorem run_owns_iff_of_refused_server :
    let world := (({} : Network).makeDirectory "d").2
    let moves := [.call (.serve "p"), .call (.serve "d")]
    FailsToServe Network.host "d" (run Network.host world [.call (.serve "p")]) ∧
      (run Network.host world moves).1.path = some "p" ∧
      ∀ past, past <+: moves → Owns Network.host (run Network.host world past) := by
  intro world moves
  have fails : FailsToServe Network.host "d" (run Network.host world [.call (.serve "p")]) :=
    ⟨.transport "is a directory", by decide +kernel⟩
  have taken := ((run_owns_iff Network.host world moves).1 _ _ fails).1
  refine ⟨fails, (congrArg Socket.path taken).trans (by decide +kernel), ?_⟩
  refine (run_owns_iff Network.host world moves).2.mpr ?_
  intro past path inside _ own has
  match past, inside with
  | [], _ => cases has
  | [first], inside =>
    obtain ⟨rfl, -⟩ := List.cons_prefix_cons.mp inside
    rw [← Option.some.inj ((by decide +kernel : some "p" = _).trans has)]
    decide +kernel
  | _ :: _ :: _, inside =>
    have short := inside.length_le
    simp [moves] at short

/-- A client that fails to become a server loses its peer, and removes the path of the server to
which it was connected. -/
theorem client_removes_path_of_server :
    let world := ((({} : Socket).serve Network.host "p" {}).2.2.makeDirectory "d").2
    let before := run Network.host world [.call (.connect "p")]
    let after := run Network.host world [.call (.connect "p"), .call (.serve "d")]
    FailsToServe Network.host "d" before ∧
      (before.1.isServer, before.1.peer.isSome) = (false, true) ∧
      (after.1.isServer, after.1.peer.isSome) = (true, false) ∧
      ¬Owns Network.host after ∧
      after.2.1.exists? "p" = true ∧
      (after.1.close Network.host after.2.1).exists? "p" = false := by
  refine ⟨⟨.transport "is a directory", by decide +kernel⟩, by decide +kernel, by decide +kernel,
    ?_, by decide +kernel, by decide +kernel⟩
  intro owns
  exact absurd (owns.bound (by decide +kernel) "p" (by decide +kernel)) (by decide +kernel)

end Socket

end ScreenPreview.Local
