import ScreenPreview.Server.Channel

/-!
Hosts that do the same in different worlds.

If a host answers in one world as another does in the picture of that world, then so do the sockets
and the control channel on them (`Channel.turn_map`). A host that also notes what it does is the
case that matters here.
-/
namespace ScreenPreview

variable {ω υ : Type} {host : Local.Host ω} {other : Local.Host υ} {f : υ → ω}

namespace Local

structure Host.Simulates (host : Host ω) (other : Host υ) (f : υ → ω) : Prop where
  remove : ∀ name w, host.remove name (f w) = (other.remove name w).map id f
  listen : ∀ name w, host.listen name (f w) = (other.listen name w).map id f
  connect : ∀ name w, host.connect name (f w) = (other.connect name w).map id f
  accept : ∀ listener w, host.accept listener (f w) = (other.accept listener w).map id f
  poll : ∀ peer w, host.poll peer (f w) = (other.poll peer w).map id f
  read : ∀ peer most w, host.read peer most (f w) = (other.read peer most w).map id f
  write : ∀ peer data w, host.write peer data (f w) = (other.write peer data w).map id f
  closeListener : ∀ listener w,
    host.closeListener listener (f w) = f (other.closeListener listener w)
  closePeer : ∀ peer w, host.closePeer peer (f w) = f (other.closePeer peer w)

namespace Socket

variable (sim : host.Simulates other f) (s : Socket) (w : υ)
include sim

theorem dropPeer_map : s.dropPeer host (f w) = (s.dropPeer other w).map id f := by
  unfold dropPeer
  cases s.peer with
  | none => rfl
  | some peer =>
    simp only [sim.closePeer]
    rfl

theorem bind_map (path : String) : bind host path (f w) = (bind other path w).map id f := by
  unfold bind
  rw [sim.remove]
  rcases other.remove path w with ⟨_ | _ | _, v⟩
  · exact sim.listen path v
  · exact sim.listen path v
  · rfl

theorem listenAgain_map :
    s.listenAgain host (f w) = (s.listenAgain other w).map id (Prod.map id f) := by
  unfold listenAgain
  rw [dropPeer_map sim]
  rcases s.dropPeer other w with ⟨t, v⟩
  simp only [Prod.map_apply, id]
  split
  · rfl
  · cases t.path with
    | none => rfl
    | some path =>
      simp only [bind_map sim]
      rcases bind other path v with ⟨_ | _, u⟩ <;> rfl

theorem listenAgainAfter_map {α : Type} (failure : Failure) :
    (s.listenAgainAfter host failure (f w) : Except Failure α × Socket × ω) =
      (s.listenAgainAfter other failure w).map id (Prod.map id f) := by
  unfold listenAgainAfter
  rw [listenAgain_map sim]
  rcases s.listenAgain other w with ⟨_ | _, t, v⟩ <;> rfl

theorem attach_map : s.attach host (f w) = (s.attach other w).map id (Prod.map id f) := by
  unfold attach
  cases s.peer with
  | some peer => rfl
  | none =>
    cases s.listener with
    | none => rfl
    | some listener =>
      simp only [sim.accept]
      rcases other.accept listener w with ⟨_ | _ | _, v⟩ <;> rfl

theorem awaitClient_map :
    s.awaitClient host (f w) = (s.awaitClient other w).map id (Prod.map id f) := by
  unfold awaitClient
  cases s.peer with
  | some peer => rfl
  | none =>
    cases s.listener with
    | none => rfl
    | some listener =>
      simp only [sim.accept]
      rcases other.accept listener w with ⟨_ | _ | _, v⟩ <;> rfl

theorem awaitBytes_map :
    s.awaitBytes host (f w) = (s.awaitBytes other w).map id (Prod.map id f) := by
  unfold awaitBytes
  cases s.peer with
  | some peer =>
    simp only [sim.poll]
    rcases other.poll peer w with ⟨_ | _, v⟩ <;> rfl
  | none =>
    simp only [awaitClient_map sim]
    rcases s.awaitClient other w with ⟨_ | _, t, v⟩ <;> rfl

theorem read_map (most : Nat) :
    s.read host most (f w) = (s.read other most w).map id (Prod.map id f) := by
  unfold read
  split
  · rfl
  · rw [attach_map sim]
    rcases s.attach other w with ⟨_ | _, t, v⟩
    · rfl
    · simp only [Prod.map_apply, id]
      cases t.peer with
      | none => rfl
      | some peer =>
        simp only [sim.read]
        rcases other.read peer most v with ⟨failure | _ | _ | _, u⟩
        · exact listenAgainAfter_map sim t u failure
        · rfl
        · rfl
        · simp only [Prod.map_apply, id, listenAgain_map sim]
          rfl

theorem write_map (data : Bytes) :
    s.write host data (f w) = (s.write other data w).map id (Prod.map id f) := by
  unfold write
  split
  · rfl
  · cases s.peer with
    | none => rfl
    | some peer =>
      simp only [sim.write]
      rcases other.write peer data w with ⟨failure | _, v⟩
      · exact listenAgainAfter_map sim s v failure
      · rfl

theorem sendLine_map (text : String) :
    s.sendLine host text (f w) = (s.sendLine other text w).map id (Prod.map id f) := by
  unfold sendLine
  split
  · rfl
  · exact write_map sim s w _

end Socket

end Local

namespace Server.Channel

open Local (Host Socket)

variable (sim : host.Simulates other f) (m : Moment)
include sim

theorem answer_map (lines : List String) (p : Preview) (s : Socket) (w : υ) :
    answer host m lines p s (f w) =
      (answer other m lines p s w).map id (Prod.map id f) := by
  induction lines generalizing p s w with
  | nil => rfl
  | cons line rest ih =>
    unfold answer
    rcases p.process m line with ⟨_ | reply, q⟩
    · exact ih q s w
    · simp only [Socket.sendLine_map sim]
      exact ih q _ _

theorem readOnce_map (c : Channel) (p : Preview) (w : υ) :
    c.readOnce host m p (f w) = (c.readOnce other m p w).map id (Prod.map id f) := by
  unfold readOnce
  rw [Socket.read_map sim]
  rcases c.socket.read other chunkSize w with ⟨_ | _ | _, t, v⟩
  · rfl
  · rfl
  · simp only [Prod.map_apply, id, answer_map sim]
    rfl

theorem turn_map (c : Channel) (p : Preview) (w : υ) :
    c.turn host m p (f w) =
      (c.turn other m p w).map id (Prod.map id (Prod.map id f)) := by
  unfold turn
  rw [Socket.awaitBytes_map sim]
  rcases c.socket.awaitBytes other w with ⟨failure | waiting, t, v⟩
  · simp only [Prod.map_apply, id, Socket.listenAgain_map sim]
    rcases t.listenAgain other v with ⟨_ | _, u, x⟩ <;> rfl
  · cases waiting with
    | readable =>
      simp only [Prod.map_apply, id, readOnce_map sim]
      rfl
    | nobody => rfl
    | quiet => rfl

end Server.Channel

end ScreenPreview
