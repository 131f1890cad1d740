import ScreenPreview.Proofs.Control.Cuttings
import ScreenPreview.Proofs.Server.Lines

/-!
How the stream of one client is read.

The loop takes all lines off each read in turn (`run_takes_reads`), so how the stream was cut
matters where a line is no text: what stands behind such a line in the same read is lost, complete
lines and the beginning of an incomplete one alike. What the loop may carry out of a stream is said
without the reads (`serves_iff_spared`): the texts of whatever is spared of it.
-/
namespace ScreenPreview.Server

open Local (Host Socket)
open Control.Line (takeReads takeReads_append takeReads_iff Spared Short Sized texts defaultLimit)

variable {ω : Type}

def readsOf (log : List Event) : List Bytes :=
  log.reverse.filterMap fun
    | .gave data => some data
    | _ => none

def linesOf (log : List Event) : List String :=
  log.reverse.filterMap fun
    | .line text => some text
    | _ => none

def clientsOf (log : List Event) : List Local.Peer :=
  log.filterMap fun
    | .came peer => some peer
    | _ => none

/-- At most one client came, and gave the stream in reads of the size that is asked for. -/
structure OneClient (log : List Event) (stream : Bytes) : Prop where
  alone : (clientsOf log).length ≤ 1
  sized : Sized Channel.chunkSize (readsOf log)
  whole : (readsOf log).flatten = stream

/-- On some host, the loop carries out these lines of a client who gives the stream. -/
def Serves (stream : Bytes) (lines : List String) : Prop :=
  ∃ (ω : Type) (host : Host ω) (socket : Socket) (preview : Preview) (world : ω)
    (moves : List (Loop.Move ω)),
    let log := ((Loop.start socket preview world).run host moves).log
    socket.peer = none ∧ OneClient log stream ∧ linesOf log = lines

theorem readsOf_append (late early : List Event) :
    readsOf (late ++ early) = readsOf early ++ readsOf late := by
  rw [readsOf, List.reverse_append, List.filterMap_append]
  rfl

theorem linesOf_append (late early : List Event) :
    linesOf (late ++ early) = linesOf early ++ linesOf late := by
  rw [linesOf, List.reverse_append, List.filterMap_append]
  rfl

theorem clientsOf_append (late early : List Event) :
    clientsOf (late ++ early) = clientsOf late ++ clientsOf early := List.filterMap_append

theorem noting_eq (lines : List String) (log : List Event) :
    Loop.noting lines log = (lines.map Event.line).reverse ++ log := by
  induction lines generalizing log with
  | nil => rfl
  | cons text rest ih =>
    rw [List.map_cons, List.reverse_cons, List.append_assoc]
    exact ih (.line text :: log)

theorem readsOf_noting (lines : List String) (log : List Event) :
    readsOf (Loop.noting lines log) = readsOf log := by
  rw [noting_eq, readsOf_append]
  simp [readsOf, List.filterMap_map]

theorem linesOf_noting (lines : List String) (log : List Event) :
    linesOf (Loop.noting lines log) = linesOf log ++ lines := by
  rw [noting_eq, linesOf_append]
  simp [linesOf, List.filterMap_map]

theorem clientsOf_noting (lines : List String) (log : List Event) :
    clientsOf (Loop.noting lines log) = clientsOf log := by
  rw [noting_eq, clientsOf_append]
  simp [clientsOf, ← List.map_reverse, List.filterMap_map]

namespace Channel

structure Hears (c : Channel) (log : List Event) : Prop where
  left : c.socket.peer.isSome → c.pending = (takeReads defaultLimit [] (readsOf log)).2
  fresh : clientsOf log = [] → readsOf log = [] ∧ c.pending = [] ∧ c.socket.peer = none

variable {c d : Channel} {seen log : List Event} {lines : List String}

theorem Attached.hears (attached : Attached c seen d) (hears : c.Hears log)
    (alone : (clientsOf (seen ++ log)).length ≤ 1) :
    d.Hears (seen ++ log) ∧ readsOf (seen ++ log) = readsOf log := by
  cases attached with
  | before => exact ⟨hears, rfl⟩
  | now peer nobody =>
    have first : clientsOf log = [] := by
      rw [clientsOf_append, List.length_append] at alone
      have new : (clientsOf [.came peer]).length = 1 := rfl
      apply List.eq_nil_of_length_eq_zero
      omega
    obtain ⟨no_read, nothing, -⟩ := hears.fresh first
    have same : readsOf ([.came peer] ++ log) = readsOf log := by
      rw [readsOf_append]
      exact List.append_nil _
    refine ⟨⟨fun _ => ?_, fun none_came => ?_⟩, same⟩
    · rw [same, no_read]
      exact nothing
    · simp [clientsOf] at none_came

theorem Turned.hears (turned : Turned c lines seen d) (hears : c.Hears log)
    (alone : (clientsOf (seen ++ log)).length ≤ 1) :
    d.Hears (seen ++ log) ∧
      (takeReads defaultLimit [] (readsOf (seen ++ log))).1 =
        (takeReads defaultLimit [] (readsOf log)).1 ++ lines := by
  cases turned with
  | quiet attached =>
    obtain ⟨hears, same⟩ := attached.hears hears alone
    exact ⟨hears, by rw [same, List.append_nil]⟩
  | gone attached nobody =>
    obtain ⟨hears, same⟩ := attached.hears hears alone
    refine ⟨⟨?_, fun none_came => ⟨(hears.fresh none_came).1, rfl, nobody⟩⟩, ?_⟩
    · intro here
      simp [nobody] at here
    · rw [same, List.append_nil]
  | @read arrived b attached here data lost socket left =>
    have clients : clientsOf (List.replicate lost .unsent ++ .gave data :: arrived ++ log) =
        clientsOf (arrived ++ log) := by
      simp [clientsOf]
    have reads : readsOf (List.replicate lost .unsent ++ .gave data :: arrived ++ log) =
        readsOf (arrived ++ log) ++ [data] := by
      simp [readsOf]
    rw [clients] at alone
    obtain ⟨hears, same⟩ := attached.hears hears alone
    have buffer := hears.left here
    have taken := takeReads_append defaultLimit [] (readsOf (arrived ++ log)) [data]
    simp only [takeReads, ← buffer, List.append_nil] at taken
    rw [← reads] at taken
    refine ⟨⟨fun _ => ?_, fun none_came => ?_⟩, ?_⟩
    · rw [taken]
      rfl
    · rw [clients] at none_came
      simp [(hears.fresh none_came).2.2] at here
    · rw [taken, same]
      rfl

end Channel

namespace Loop

variable (host : Host ω) {l : Loop ω}

structure Takes (l : Loop ω) : Prop where
  lines : linesOf l.log = (takeReads defaultLimit [] (readsOf l.log)).1
  channel : l.broken = false → l.channel.Hears l.log

theorem Takes.turn (takes : l.Takes) (m : Moment)
    (alone : (clientsOf (l.step host (.turn m)).log).length ≤ 1) :
    (l.step host (.turn m)).Takes := by
  cases going : l.broken with
  | true => rwa [step_turn_of_broken host m going]
  | false =>
    obtain ⟨lines, seen, log, -, -, outcome⟩ := step_turn_cases host m going
    rcases outcome with ⟨broken, rfl, rfl⟩ | ⟨-, turned⟩
    · refine ⟨?_, fun goes_on => absurd (broken.symm.trans goes_on) (by simp)⟩
      rw [log]
      exact takes.lines
    · rw [log, clientsOf_noting] at alone
      obtain ⟨hears, taken⟩ := turned.hears (takes.channel going) alone
      have no_line : linesOf seen = [] := by
        rw [linesOf, List.filterMap_eq_nil_iff]
        intro event member
        cases event with
        | line text => exact absurd (List.mem_reverse.mp member) (turned.line_not_mem text)
        | _ => rfl
      refine ⟨?_, fun _ => ?_⟩
      · rw [log, linesOf_noting, readsOf_noting, taken, linesOf_append, no_line, List.append_nil,
          takes.lines]
      · obtain ⟨left, fresh⟩ := hears
        rw [log]
        refine ⟨?_, ?_⟩
        · rw [readsOf_noting]
          exact left
        · rw [clientsOf_noting, readsOf_noting]
          exact fresh

theorem clientsOf_step (move : Move ω) :
    (clientsOf l.log).length ≤ (clientsOf (l.step host move).log).length := by
  cases move with
  | preview preview => exact Nat.le_refl _
  | world world => exact Nat.le_refl _
  | turn m =>
    cases going : l.broken with
    | true => rw [step_turn_of_broken host m going]
    | false =>
      obtain ⟨lines, seen, log, -⟩ := step_turn_cases host m going
      rw [log, clientsOf_noting, clientsOf_append, List.length_append]
      exact Nat.le_add_left _ _

theorem run_takes_reads {moves : List (Move ω)} (takes : l.Takes)
    (alone : (clientsOf (l.run host moves).log).length ≤ 1) : (l.run host moves).Takes := by
  induction moves using List.reverseRecOn with
  | nil => exact takes
  | append_singleton moves move ih =>
    rw [run_concat] at alone ⊢
    have before := ih ((clientsOf_step host move).trans alone)
    cases move with
    | turn m => exact before.turn host m alone
    | preview preview => exact ⟨before.lines, before.channel⟩
    | world world => exact ⟨before.lines, before.channel⟩

theorem takes_start {socket : Socket} (nobody : socket.peer = none) (preview : Preview)
    (world : ω) : (start socket preview world).Takes :=
  ⟨rfl, fun _ => ⟨fun here => by simp [start, nobody] at here, fun _ => ⟨rfl, rfl, nobody⟩⟩⟩

end Loop

theorem spared_of_serves {stream : Bytes} (short : Short defaultLimit stream)
    {lines : List String} (serves : Serves stream lines) :
    ∃ kept, Spared Channel.chunkSize stream kept ∧ texts kept = lines := by
  obtain ⟨ω, host, socket, preview, world, moves, nobody, client, rfl⟩ := serves
  have takes := Loop.run_takes_reads host (Loop.takes_start nobody preview world) client.alone
  apply (takeReads_iff (by decide) short _).mp
  exact ⟨_, client.whole, client.sized, takes.lines.symm⟩

/-! ### A client whose reads are given -/

def Script.listening : Host Script := { Script.host with write := fun _ _ w => (.ok (), w) }

theorem sendLine_listening (s : Socket) (text : String) (w : Script × List Event) :
    (s.sendLine Script.listening.watched text w).2 = (s, w) := by
  unfold Socket.sendLine
  cases Control.Line.toBytes defaultLimit text with
  | error failure => rfl
  | ok data =>
    simp only [Socket.write]
    split
    · rfl
    · cases s.peer <;> rfl

theorem answer_listening (m : Moment) (lines : List String) (p : Preview) (s : Socket)
    (w : Script × List Event) :
    (Channel.answer Script.listening.watched m lines p s w).2 = (s, w) := by
  induction lines generalizing p with
  | nil => rfl
  | cons line rest ih =>
    rcases answered : p.process m line with ⟨_ | reply, q⟩
    · simp only [Channel.answer, answered]
      exact ih q
    · simp only [Channel.answer, answered, sendLine_listening]
      exact ih q

theorem readOnce_listening (m : Moment) (c : Channel) (p : Preview) {peer : Local.Peer}
    (here : c.socket.peer = some peer) {data : Bytes} (some_data : data ≠ [])
    (coming : List (List Bytes)) (rest : List Bytes) (seen : List Event) :
    let after := c.readOnce Script.listening.watched m p (⟨coming, data :: rest⟩, seen)
    after.1.socket.peer = some peer ∧ after.2.2 = (⟨coming, rest⟩, .gave data :: seen) := by
  obtain ⟨b, others, rfl⟩ := List.exists_cons_of_ne_nil some_data
  have room : Channel.chunkSize ≠ 0 := by decide
  have read : c.socket.read Script.listening.watched Channel.chunkSize
      (⟨coming, (b :: others) :: rest⟩, seen) =
      (.ok (b :: others), c.socket, ⟨coming, rest⟩, .gave (b :: others) :: seen) := by
    simp only [Socket.read, if_neg room, Socket.attach, here]
    rfl
  simp only [Channel.readOnce, read, answer_listening]
  exact ⟨here, trivial⟩

namespace Loop

structure Expects (l : Loop Script) (reads : List Bytes) : Prop where
  going : l.broken = false
  here : l.channel.socket.peer.isSome
  coming : l.world.reads = reads

variable {l : Loop Script} {data : Bytes} {rest : List Bytes}

theorem turn_listening (m : Moment) (going : l.broken = false) (some_data : data ≠ [])
    {socket : Socket} {coming : List (List Bytes)} {arrived : List Event} {peer : Local.Peer}
    (waited : l.channel.socket.awaitBytes Script.listening.watched (l.world, []) =
      (.ok .readable, socket, ⟨coming, data :: rest⟩, arrived))
    (here : socket.peer = some peer) :
    let after := l.step Script.listening (.turn m)
    after.Expects rest ∧
      ∃ lines, after.log = noting lines (.gave data :: arrived ++ l.log) := by
  obtain ⟨attached, left⟩ := readOnce_listening m { l.channel with socket } l.preview here some_data
    coming rest arrived
  simp only [step, going, Bool.false_eq_true, if_false, Channel.turn, waited, left]
  refine ⟨⟨rfl, ?_, rfl⟩, _, rfl⟩
  rw [attached]
  rfl

theorem Expects.turn (expects : l.Expects (data :: rest)) (some_data : data ≠ []) (m : Moment) :
    let after := l.step Script.listening (.turn m)
    after.Expects rest ∧ ∃ lines, after.log = noting lines (.gave data :: l.log) := by
  obtain ⟨going, here, coming⟩ := expects
  obtain ⟨peer, attached⟩ := Option.isSome_iff_exists.mp here
  have world : l.world = ⟨l.world.coming, data :: rest⟩ := by rw [← coming]
  have waited : l.channel.socket.awaitBytes Script.listening.watched (l.world, []) =
      (.ok .readable, l.channel.socket, ⟨l.world.coming, data :: rest⟩, []) := by
    rw [← world]
    simp only [Socket.awaitBytes, attached]
    rfl
  exact turn_listening m going some_data waited attached

theorem Expects.run {reads : List Bytes} (expects : l.Expects reads)
    (some_data : ∀ data ∈ reads, data ≠ []) (m : Moment) :
    let after := l.run Script.listening (List.replicate reads.length (.turn m))
    readsOf after.log = readsOf l.log ++ reads ∧ clientsOf after.log = clientsOf l.log := by
  induction reads generalizing l with
  | nil => exact ⟨(List.append_nil _).symm, rfl⟩
  | cons data rest ih =>
    obtain ⟨first, some_rest⟩ := List.forall_mem_cons.mp some_data
    obtain ⟨expects, lines, log⟩ := expects.turn first m
    obtain ⟨reads, clients⟩ := ih expects some_rest
    have gave : readsOf [.gave data] = [data] := rfl
    rw [log, readsOf_noting, ← List.singleton_append, readsOf_append, gave, List.append_assoc]
      at reads
    rw [log, clientsOf_noting] at clients
    exact ⟨reads, clients⟩

theorem awaiting_reads {reads : List Bytes} (some_data : ∀ data ∈ reads, data ≠ []) (m : Moment) :
    let after := (awaiting [reads]).run Script.listening (List.replicate reads.length (.turn m))
    readsOf after.log = reads ∧ (clientsOf after.log).length ≤ 1 := by
  cases reads with
  | nil => exact ⟨rfl, Nat.zero_le 1⟩
  | cons data rest =>
    obtain ⟨first, some_rest⟩ := List.forall_mem_cons.mp some_data
    obtain ⟨expects, lines, log⟩ :=
      turn_listening (l := awaiting [data :: rest]) m rfl first rfl rfl
    obtain ⟨reads, clients⟩ := expects.run some_rest m
    rw [log, readsOf_noting] at reads
    rw [log, clientsOf_noting] at clients
    exact ⟨reads, clients.symm ▸ Nat.le_refl 1⟩

end Loop

theorem serves_reads {reads : List Bytes} (sized : Sized Channel.chunkSize reads) :
    Serves reads.flatten (takeReads defaultLimit [] reads).1 := by
  let m : Moment := ⟨0, 0⟩
  obtain ⟨given, alone⟩ := Loop.awaiting_reads (fun data member => (sized data member).1) m
  have started : (Loop.awaiting [reads]).Takes := Loop.takes_start rfl _ _
  have taken := (Loop.run_takes_reads Script.listening started alone).lines
  rw [given] at taken
  exact ⟨Script, Script.listening, { listener := some ⟨0⟩, isServer := true }, .ofConfig {} 0,
    { coming := [reads] }, List.replicate reads.length (.turn m), rfl,
    ⟨alone, given.symm ▸ sized, congrArg List.flatten given⟩, taken⟩

theorem serves_of_spared {stream kept : Bytes} (short : Short defaultLimit stream)
    (spared : Spared Channel.chunkSize stream kept) : Serves stream (texts kept) := by
  obtain ⟨reads, rfl, sized, lines⟩ :=
    (takeReads_iff (by decide) short (texts kept)).mpr ⟨kept, spared, rfl⟩
  rw [← lines]
  exact serves_reads sized

/-- Of a client whose lines are not too long, the loop may carry out exactly the texts of what is
spared of his stream when less than a read is lost behind each line that is no text. It carries out
the same lines however the stream is cut if and only if all this spares the same texts. -/
theorem serves_iff_spared (stream : Bytes) (short : Short defaultLimit stream) :
    (∀ lines, Serves stream lines ↔
      ∃ kept, Spared Channel.chunkSize stream kept ∧ texts kept = lines) ∧
    ((∀ one other, Serves stream one → Serves stream other → one = other) ↔
      ∀ kept, Spared Channel.chunkSize stream kept → texts kept = texts stream) := by
  have exact_lines : ∀ lines, Serves stream lines ↔
      ∃ kept, Spared Channel.chunkSize stream kept ∧ texts kept = lines := by
    intro lines
    constructor
    · exact spared_of_serves short
    · rintro ⟨kept, spared, rfl⟩
      exact serves_of_spared short spared
  refine ⟨exact_lines, ?_, ?_⟩
  · intro same kept spared
    exact same _ _ (serves_of_spared short spared) (serves_of_spared short (.refl _ stream))
  · intro same one other serves_one serves_other
    obtain ⟨first, spared_first, rfl⟩ := spared_of_serves short serves_one
    obtain ⟨second, spared_second, rfl⟩ := spared_of_serves short serves_other
    rw [same first spared_first, same second spared_second]

theorem serves_iff_of_text {stream : Bytes} (short : Short defaultLimit stream)
    (text : ∀ line ∈ Control.Line.ended stream, ¬ Control.Line.Faulty line) (lines : List String) :
    Serves stream lines ↔ lines = texts stream := by
  constructor
  · intro serves
    obtain ⟨kept, spared, rfl⟩ := spared_of_serves short serves
    rw [spared.eq_of_text text]
  · rintro rfl
    exact serves_of_spared short (.refl _ stream)

theorem serves_iff_spared_before_fault :
    let stream : Bytes := [120, 10, 255, 10]
    Short defaultLimit stream ∧ ∀ lines, Serves stream lines ↔ lines = ["x"] := by
  intro stream
  have short : Short defaultLimit stream := by
    unfold Short
    decide +kernel
  have lines_of : texts stream = ["x"] := by decide +kernel
  obtain ⟨exact_lines, -⟩ := serves_iff_spared stream short
  refine ⟨short, fun lines => (exact_lines lines).trans ⟨?_, ?_⟩⟩
  · rintro ⟨kept, spared, rfl⟩
    have first : Control.Line.Open [120] := by
      intro b member
      rw [List.mem_singleton.mp member]
      rfl
    have second : Control.Line.Open [255] := by
      intro b member
      rw [List.mem_singleton.mp member]
      rfl
    -- Behind "x" nothing is lost, and behind the last line there is nothing to lose.
    have spared : Spared Channel.chunkSize ([120] ++ 10 :: [255, 10]) kept := spared
    obtain ⟨lost, later, kept, whole, loses, spared, rfl⟩ := spared.of_cons first rfl
    have none_lost : lost = [] := by
      by_contra some_lost
      obtain ⟨⟨fault, read⟩, -⟩ := loses some_lost
      have text : (Text.Utf8.read [120]).toOption = some "x" := by decide +kernel
      simp [read, Except.toOption] at text
    subst none_lost whole
    have spared : Spared Channel.chunkSize ([255] ++ 10 :: []) kept := spared
    obtain ⟨lost, later, kept, whole, -, spared, rfl⟩ := spared.of_cons second rfl
    obtain ⟨rfl, rfl⟩ := List.append_eq_nil_iff.mp whole.symm
    rw [spared.eq_of_open Control.Line.open_nil]
    exact lines_of
  · rintro rfl
    exact ⟨stream, .refl _ stream, lines_of⟩

/-- A line that is no text and the line "good" in two reads. Where the first one ends behind "go",
the loop carries out "od". -/
theorem serves_end_of_line :
    ¬ ∀ stream, Short defaultLimit stream →
      ∀ one other, Serves stream one → Serves stream other → one = other := by
  intro same
  have short : Short defaultLimit [255, 10, 103, 111, 111, 100, 10] := by
    unfold Short
    decide +kernel
  have good : Serves [255, 10, 103, 111, 111, 100, 10] ["good"] := by
    have sized : Sized Channel.chunkSize [[255, 10], [103, 111, 111, 100, 10]] := by
      unfold Sized
      decide +kernel
    rw [show ["good"] = (takeReads defaultLimit [] [[255, 10], [103, 111, 111, 100, 10]]).1 by
      decide +kernel]
    exact serves_reads sized
  have od : Serves [255, 10, 103, 111, 111, 100, 10] ["od"] := by
    have sized : Sized Channel.chunkSize [[255, 10, 103, 111], [111, 100, 10]] := by
      unfold Sized
      decide +kernel
    rw [show ["od"] = (takeReads defaultLimit [] [[255, 10, 103, 111], [111, 100, 10]]).1 by
      decide +kernel]
    exact serves_reads sized
  exact absurd (same _ short _ _ good od) (by decide)

end ScreenPreview.Server
