import ScreenPreview.Proofs.Local.Simulation

/-!
What a turn of the control channel can do.

A watched host notes which clients it attaches, which bytes it reads and which writes fail. A turn
that does not break the channel off attaches at most one client, reads at most once and then carries
out the lines that are complete; it is one of the cases of `Turned` (`turn_cases`).
-/
namespace ScreenPreview

namespace Server

inductive Event where
  | came (peer : Local.Peer)
  | gave (data : Bytes)
  | unsent
  | line (text : String)
  deriving DecidableEq, Repr

end Server

open Server (Event)

variable {ω : Type}

def Local.Host.watched (host : Local.Host ω) : Local.Host (ω × List Event) where
  remove name w := ((host.remove name w.1).1, (host.remove name w.1).2, w.2)
  listen name w := ((host.listen name w.1).1, (host.listen name w.1).2, w.2)
  connect name w := ((host.connect name w.1).1, (host.connect name w.1).2, w.2)
  accept listener w :=
    match host.accept listener w.1 with
    | (.ok (some peer), v) => (.ok (some peer), v, .came peer :: w.2)
    | (other, v) => (other, v, w.2)
  poll peer w := ((host.poll peer w.1).1, (host.poll peer w.1).2, w.2)
  read peer most w :=
    match host.read peer most w.1 with
    | (.ok (.bytes (b :: data)), v) => (.ok (.bytes (b :: data)), v, .gave (b :: data) :: w.2)
    | (other, v) => (other, v, w.2)
  write peer data w :=
    match host.write peer data w.1 with
    | (.ok (), v) => (.ok (), v, w.2)
    | (.error failure, v) => (.error failure, v, .unsent :: w.2)
  closeListener listener w := (host.closeListener listener w.1, w.2)
  closePeer peer w := (host.closePeer peer w.1, w.2)

theorem Local.Host.simulates_watched (host : Local.Host ω) :
    host.Simulates host.watched Prod.fst where
  remove _ _ := rfl
  listen _ _ := rfl
  connect _ _ := rfl
  accept listener w := by
    simp only [watched]
    rcases host.accept listener w.1 with ⟨_ | _ | _, v⟩ <;> rfl
  poll _ _ := rfl
  read peer most w := by
    simp only [watched]
    rcases host.read peer most w.1 with ⟨_ | (_ | _) | _ | _, v⟩ <;> rfl
  write peer data w := by
    simp only [watched]
    rcases host.write peer data w.1 with ⟨_ | _, v⟩ <;> rfl
  closeListener _ _ := rfl
  closePeer _ _ := rfl

namespace Local.Socket

variable (host : Host ω) (s : Socket) (w : ω × List Event)

/-! ### Sockets on a watched host -/

theorem dropPeer_watched :
    (s.dropPeer host.watched w).1 = { s with peer := none } ∧
      (s.dropPeer host.watched w).2.2 = w.2 := by
  unfold dropPeer
  cases peer : s.peer with
  | none => exact ⟨by simp [← peer], rfl⟩
  | some peer => exact ⟨rfl, rfl⟩

theorem bind_watched (path : String) : (bind host.watched path w).2.2 = w.2 := by
  simp only [bind, Host.watched]
  cases (host.remove path w.1).1 <;> rfl

theorem listenAgain_watched :
    (s.listenAgain host.watched w).2.1.peer = none ∧
      (s.listenAgain host.watched w).2.2.2 = w.2 := by
  obtain ⟨dropped, quiet⟩ := dropPeer_watched host s w
  simp only [listenAgain, dropped]
  split
  · exact ⟨rfl, quiet⟩
  · cases s.path with
    | none => exact ⟨rfl, quiet⟩
    | some path =>
      have bound := bind_watched host (s.dropPeer host.watched w).2 path
      rw [quiet] at bound
      rcases result : bind host.watched path (s.dropPeer host.watched w).2 with
        ⟨failure | listener, v⟩
      all_goals
        rw [result] at bound
        simp only [result]
        exact ⟨trivial, bound⟩

theorem listenAgainAfter_watched {α : Type} (failure : Failure) :
    let after : Except Failure α × Socket × ω × List Event :=
      s.listenAgainAfter host.watched failure w
    (∃ other, after.1 = .error other) ∧ after.2.1.peer = none ∧ after.2.2.2 = w.2 := by
  have again := listenAgain_watched host s w
  simp only [listenAgainAfter]
  rcases result : s.listenAgain host.watched w with ⟨other | _, t, v⟩
  · rw [result] at again
    exact ⟨⟨other, rfl⟩, again⟩
  · rw [result] at again
    exact ⟨⟨failure, rfl⟩, again⟩

theorem awaitBytes_watched :
    let after := s.awaitBytes host.watched w
    (after.1 ≠ .ok .readable ∧ after.2.1 = s ∧ after.2.2.2 = w.2) ∨
      after.1 = .ok .readable ∧
        (s.peer.isSome ∧ after.2.1 = s ∧ after.2.2.2 = w.2 ∨
          ∃ peer, s.peer = none ∧ after.2.1 = { s with peer := some peer } ∧
            after.2.2.2 = .came peer :: w.2) := by
  unfold awaitBytes
  cases attached : s.peer with
  | some peer =>
    simp only [Host.watched]
    rcases (host.poll peer w.1).1 with failure | ready
    · exact Or.inl ⟨by simp, rfl, rfl⟩
    · cases ready with
      | false => exact Or.inl ⟨by simp, rfl, rfl⟩
      | true => exact Or.inr ⟨rfl, Or.inl ⟨rfl, rfl, rfl⟩⟩
  | none =>
    simp only [awaitClient, attached]
    cases s.listener with
    | none => exact Or.inl ⟨by simp, rfl, rfl⟩
    | some listener =>
      simp only [Host.watched]
      rcases host.accept listener w.1 with ⟨failure | ⟨_ | peer⟩, v⟩
      · exact Or.inl ⟨by simp, rfl, rfl⟩
      · exact Or.inl ⟨by simp, rfl, rfl⟩
      · exact Or.inr ⟨rfl, Or.inr ⟨peer, trivial, rfl, rfl⟩⟩

theorem read_watched {most : Nat} (some_room : most ≠ 0) {peer : Peer}
    (attached : s.peer = some peer) :
    let after := s.read host.watched most w
    (∃ data, data ≠ [] ∧ after.1 = .ok data ∧ after.2.1 = s ∧ after.2.2.2 = .gave data :: w.2) ∨
      after.1 = .ok [] ∧ after.2.1 = s ∧ after.2.2.2 = w.2 ∨
      (after.1 = .ok [] ∨ ∃ failure, after.1 = .error failure) ∧ after.2.1.peer = none ∧
        after.2.2.2 = w.2 := by
  simp only [read, if_neg some_room, attach, attached, Host.watched]
  rcases host.read peer most w.1 with ⟨failure | ⟨(_ | ⟨b, data⟩) | _ | _⟩, v⟩
  · obtain ⟨failed, gone, quiet⟩ :=
      listenAgainAfter_watched host s (v, w.2) (α := Bytes) failure
    exact Or.inr (Or.inr ⟨Or.inr failed, gone, quiet⟩)
  · exact Or.inr (Or.inl ⟨rfl, rfl, rfl⟩)
  · exact Or.inl ⟨b :: data, by simp, rfl, rfl, rfl⟩
  · exact Or.inr (Or.inl ⟨rfl, rfl, rfl⟩)
  · obtain ⟨gone, quiet⟩ := listenAgain_watched host s (v, w.2)
    have mapped (result : Except Failure Unit) :
        result.map (fun _ => ([] : Bytes)) = .ok [] ∨
          ∃ failure, result.map (fun _ => ([] : Bytes)) = .error failure := by
      cases result with
      | error failure => exact Or.inr ⟨failure, rfl⟩
      | ok _ => exact Or.inl rfl
    exact Or.inr (Or.inr ⟨mapped _, gone, quiet⟩)

theorem sendLine_watched (text : String) :
    let after := s.sendLine host.watched text w
    after.2.1.peer = s.peer ∧ after.2.2.2 = w.2 ∨
      after.2.1.peer = none ∧ after.2.2.2 = .unsent :: w.2 := by
  unfold sendLine
  cases Control.Line.toBytes Control.Line.defaultLimit text with
  | error failure => exact Or.inl ⟨rfl, rfl⟩
  | ok data =>
    simp only [write]
    split
    · exact Or.inl ⟨rfl, rfl⟩
    · cases attached : s.peer with
      | none => exact Or.inl ⟨attached, rfl⟩
      | some peer =>
        simp only [Host.watched]
        rcases host.write peer data w.1 with ⟨failure | _, v⟩
        · exact Or.inr (listenAgainAfter_watched host s (v, .unsent :: w.2) failure).2
        · exact Or.inl ⟨attached, rfl⟩

end Local.Socket

namespace Server

open Local (Host Socket)

/-- The stream of the client that is attached: the bytes that were read since the last one came, or
behind `stream` if none did. -/
def heardAfter (stream : Bytes) : List Event → Bytes
  | [] => stream
  | .came _ :: _ => []
  | .gave data :: older => heardAfter stream older ++ data
  | .unsent :: older => heardAfter stream older
  | .line _ :: older => heardAfter stream older

def Turn.breaks : Turn → Bool
  | .broken _ => true
  | _ => false

namespace Channel

def linesRead (host : Host ω) (c : Channel) (w : ω) : List String :=
  match c.socket.read host chunkSize w with
  | (.ok [], _, _) => []
  | (.ok data, socket, _) => ({ c with socket }.receive data).1
  | (.error _, _, _) => []

def lines (host : Host ω) (c : Channel) (w : ω) : List String :=
  match c.socket.awaitBytes host w with
  | (.ok .readable, socket, w) => { c with socket }.linesRead host w
  | _ => []

inductive Attached (c : Channel) : List Event → Channel → Prop where
  | before : Attached c [] c
  | now (peer : Local.Peer) (nobody : c.socket.peer = none) :
    Attached c [.came peer] { c with socket := { c.socket with peer := some peer } }

/-- What a turn that does not break the channel off may come to: the lines it carries out, what
happens, the last first, and the channel after it. -/
inductive Turned (c : Channel) : List String → List Event → Channel → Prop where
  | quiet {seen : List Event} {d : Channel} (attached : Attached c seen d) : Turned c [] seen d
  | gone {seen : List Event} {d : Channel} (attached : Attached c seen d) {socket : Socket}
    (nobody : socket.peer = none) : Turned c [] seen ⟨socket, []⟩
  | read {seen : List Event} {d : Channel} (attached : Attached c seen d)
    (here : d.socket.peer.isSome) (data : Bytes) {lost : Nat} {socket : Socket}
    (left : if lost = 0 then socket.peer = d.socket.peer else socket.peer = none) :
    Turned c (d.receive data).1 (List.replicate lost .unsent ++ .gave data :: seen)
      { (d.receive data).2 with socket }

variable (host : Host ω) (m : Moment)

theorem answer_watched (lines : List String) (p : Preview) (s : Socket) (w : ω × List Event) :
    let after := answer host.watched m lines p s w
    after.1 = lines.foldl (fun p line => (p.process m line).2) p ∧
      ∃ lost, after.2.2.2 = List.replicate lost .unsent ++ w.2 ∧
        (if lost = 0 then after.2.1.peer = s.peer else after.2.1.peer = none) := by
  induction lines generalizing p s w with
  | nil => exact ⟨rfl, 0, rfl, rfl⟩
  | cons line rest ih =>
    rcases answered : p.process m line with ⟨_ | reply, q⟩
    · obtain ⟨carried, rest_of⟩ := ih q s w
      simp only [answer, answered, List.foldl_cons]
      exact ⟨carried, rest_of⟩
    · simp only [answer, answered, List.foldl_cons]
      have wrote := s.sendLine_watched host w reply
      obtain ⟨carried, lost, seen, left⟩ := ih q (s.sendLine host.watched reply w).2.1
        (s.sendLine host.watched reply w).2.2
      refine ⟨carried, ?_⟩
      rcases wrote with ⟨attached, quiet⟩ | ⟨gone, noted⟩
      · exact ⟨lost, by rw [seen, quiet], by rwa [attached] at left⟩
      · -- The first failed write drops the peer, and nobody is attached while lines are answered.
        refine ⟨lost + 1, ?_, ?_⟩
        · rw [seen, noted, List.replicate_succ', List.append_assoc]
          rfl
        · rw [if_neg (Nat.succ_ne_zero lost)]
          by_cases none_lost : lost = 0
          · rw [if_pos none_lost] at left
            exact left.trans gone
          · rw [if_neg none_lost] at left
            exact left

theorem readOnce_cases {d : Channel} (here : d.socket.peer.isSome) (p : Preview)
    (w : ω × List Event) :
    let after := d.readOnce host.watched m p w
    after.2.1 = (d.linesRead host.watched w).foldl (fun p line => (p.process m line).2) p ∧
      ∃ seen, after.2.2.2 = seen ++ w.2 ∧ ∀ c arrived, Attached c arrived d →
        Turned c (d.linesRead host.watched w) (seen ++ arrived) after.1 := by
  obtain ⟨peer, attached⟩ := Option.isSome_iff_exists.mp here
  have room : chunkSize ≠ 0 := by decide
  rcases d.socket.read_watched host w room attached with
    ⟨data, some_data, result, same, noted⟩ | ⟨result, same, quiet⟩ | ⟨result, nobody, quiet⟩
  · rcases read : d.socket.read host.watched chunkSize w with ⟨_, socket, v⟩
    rw [read] at result same noted
    simp only at result same noted
    subst result same
    obtain ⟨b, rest, rfl⟩ := List.exists_cons_of_ne_nil some_data
    simp only [readOnce, linesRead, read]
    obtain ⟨carried, lost, seen, left⟩ :=
      answer_watched host m (d.receive (b :: rest)).1 p d.socket v
    refine ⟨carried, List.replicate lost .unsent ++ [.gave (b :: rest)], ?_, ?_⟩
    · rw [List.append_assoc, List.singleton_append, ← noted]
      exact seen
    · intro c arrived arrival
      rw [List.append_assoc]
      exact .read arrival here (b :: rest) left
  · rcases read : d.socket.read host.watched chunkSize w with ⟨_, socket, v⟩
    rw [read] at result same quiet
    simp only at result same quiet
    subst result same
    simp only [readOnce, linesRead, read, here, if_true]
    exact ⟨rfl, [], quiet, fun c arrived arrival => .quiet arrival⟩
  · rcases read : d.socket.read host.watched chunkSize w with ⟨_, socket, v⟩
    rw [read] at result nobody quiet
    simp only at result nobody quiet
    rcases result with rfl | ⟨failure, rfl⟩
    · simp only [readOnce, linesRead, read, nobody, Option.isSome_none]
      exact ⟨rfl, [], quiet, fun c arrived arrival => .gone arrival nobody⟩
    · simp only [readOnce, linesRead, read]
      exact ⟨rfl, [], quiet, fun c arrived arrival => .gone arrival nobody⟩

theorem turn_cases (c : Channel) (p : Preview) (w : ω × List Event) :
    let after := c.turn host.watched m p w
    after.2.2.1 = (c.lines host.watched w).foldl (fun p line => (p.process m line).2) p ∧
      ∃ seen, after.2.2.2.2 = seen ++ w.2 ∧
        (after.1.breaks ∧ seen = [] ∧ c.lines host.watched w = [] ∨
          after.1.breaks = false ∧ Turned c (c.lines host.watched w) seen after.2.1) := by
  have waited := c.socket.awaitBytes_watched host w
  rcases result : c.socket.awaitBytes host.watched w with ⟨answer, socket, v⟩
  rw [result] at waited
  simp only at waited
  rcases waited with ⟨nothing, rfl, quiet⟩ | ⟨rfl, arrived⟩
  · simp only [turn, lines, result]
    cases answer with
    | ok waiting =>
      cases waiting with
      | readable => exact absurd rfl nothing
      | nobody => exact ⟨rfl, [], quiet, Or.inr ⟨rfl, .quiet .before⟩⟩
      | quiet => exact ⟨rfl, [], quiet, Or.inr ⟨rfl, .quiet .before⟩⟩
    | error failure =>
      have again := c.socket.listenAgain_watched host v
      rcases listening : c.socket.listenAgain host.watched v with ⟨other | _, socket, u⟩
      · rw [listening] at again
        simp only [listening]
        exact ⟨rfl, [], again.2.trans quiet, Or.inl ⟨rfl, rfl, trivial⟩⟩
      · rw [listening] at again
        simp only [listening]
        exact ⟨rfl, [], again.2.trans quiet, Or.inr ⟨rfl, .gone .before again.1⟩⟩
  · simp only [turn, lines, result]
    have attached : ∃ arrived, v.2 = arrived ++ w.2 ∧ socket.peer.isSome ∧
        Attached c arrived { c with socket } := by
      rcases arrived with ⟨here, rfl, quiet⟩ | ⟨peer, nobody, rfl, noted⟩
      · exact ⟨[], quiet, here, .before⟩
      · exact ⟨_, noted, rfl, .now peer nobody⟩
    obtain ⟨arrived, before, here, attached⟩ := attached
    obtain ⟨carried, seen, noted, turned⟩ :=
      readOnce_cases host m (d := { c with socket }) here p v
    refine ⟨carried, seen ++ arrived, ?_, Or.inr ⟨rfl, turned c arrived attached⟩⟩
    rw [noted, before, List.append_assoc]

end Channel

end Server

end ScreenPreview
