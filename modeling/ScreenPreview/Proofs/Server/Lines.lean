import Mathlib.Data.List.Induction
import ScreenPreview.Proofs.Control.Spelling
import ScreenPreview.Proofs.Server.Loop

/-!
From whom the command lines come.

The bytes behind the last complete line are kept while their client is attached and thrown away when
a read finds him gone. A reply that cannot be written drops the client as well, but leaves these
bytes for the next one. Each line is therefore spelled within what one client sent if every turn in
which a reply is lost leaves no bytes behind (`run_lines_of_one_client`); otherwise the end of one
client and the beginning of the next may make a line (`run_joins_two_clients`).
-/
namespace ScreenPreview.Server

open Local (Host Socket)

variable {ω : Type}

namespace Loop

def LeavesBytes (l : Loop ω) : Prop :=
  l.broken = false ∧ l.channel.socket.peer = none ∧ l.channel.pending ≠ []

end Loop

def heard (log : List Event) : Bytes := heardAfter [] log

def OfOneClient (log : List Event) : Prop :=
  ∀ text older, .line text :: older <:+ log → Control.Line.SpelledIn text (heard older)

theorem heard_noting (lines : List String) (log : List Event) :
    heard (Loop.noting lines log) = heard log := by
  induction lines generalizing log with
  | nil => rfl
  | cons text rest ih => exact ih (.line text :: log)

theorem heard_append (log older : List Event) :
    heard (log ++ older) = heardAfter (heard older) log := by
  induction log with
  | nil => rfl
  | cons event log ih =>
    cases event with
    | came peer => rfl
    | gave data => exact congrArg (· ++ data) ih
    | unsent => exact ih
    | line text => exact ih

theorem heardAfter_replicate_unsent (stream : Bytes) (lost : Nat) (log : List Event) :
    heardAfter stream (List.replicate lost .unsent ++ log) = heardAfter stream log := by
  induction lost with
  | zero => rfl
  | succ lost ih => exact ih

namespace OfOneClient

variable {log : List Event}

theorem nil : OfOneClient [] := by
  intro text older inside
  simp at inside

theorem cons_line {text : String} (before : OfOneClient log)
    (spelled : Control.Line.SpelledIn text (heard log)) : OfOneClient (.line text :: log) := by
  intro other older inside
  rcases List.suffix_cons_iff.mp inside with same | inside
  · obtain ⟨⟨⟩, rfl⟩ := List.cons.inj same
    exact spelled
  · exact before other older inside

theorem append {seen : List Event} (before : OfOneClient log)
    (no_line : ∀ text, .line text ∉ seen) : OfOneClient (seen ++ log) := by
  induction seen with
  | nil => exact before
  | cons event rest ih =>
    intro text older inside
    rcases List.suffix_cons_iff.mp inside with same | inside
    · obtain ⟨rfl, -⟩ := List.cons.inj same
      exact absurd List.mem_cons_self (no_line text)
    · have rest_no_line : ∀ text, .line text ∉ rest :=
        fun text member => no_line text (List.mem_cons_of_mem _ member)
      exact ih rest_no_line text older inside

theorem noting {lines : List String} (before : OfOneClient log)
    (spelled : ∀ text ∈ lines, Control.Line.SpelledIn text (heard log)) :
    OfOneClient (Loop.noting lines log) := by
  induction lines generalizing log with
  | nil => exact before
  | cons text rest ih =>
    have first := before.cons_line (spelled text List.mem_cons_self)
    exact ih first fun other member => spelled other (List.mem_cons_of_mem _ member)

end OfOneClient

namespace Channel

/-- What is pending is the end of what the client who came last has sent, and nothing is pending
while nobody is attached. -/
structure Keeps (c : Channel) (stream : Bytes) : Prop where
  inside : c.pending <:+ stream
  nobody : c.socket.peer = none → c.pending = []

variable {c d : Channel} {seen : List Event} {lines : List String} {stream : Bytes}

theorem Attached.keeps (attached : Attached c seen d) (keeps : c.Keeps stream) :
    d.Keeps (heardAfter stream seen) := by
  cases attached with
  | before => exact keeps
  | now peer nobody =>
    refine ⟨?_, fun gone => absurd gone (by simp)⟩
    rw [keeps.nobody nobody]
    exact List.nil_suffix

theorem Attached.came_of_mem (attached : Attached c seen d) {event : Event}
    (member : event ∈ seen) : ∃ peer, event = .came peer := by
  cases attached with
  | before => cases member
  | now peer nobody => exact ⟨peer, List.mem_singleton.mp member⟩

theorem Turned.line_not_mem (turned : Turned c lines seen d) (text : String) :
    .line text ∉ seen := by
  intro member
  have before : ∃ arrived b, Attached c arrived b ∧ .line text ∈ arrived := by
    cases turned with
    | quiet attached => exact ⟨_, _, attached, member⟩
    | gone attached nobody => exact ⟨_, _, attached, member⟩
    | read attached here data left =>
      exact ⟨_, _, attached, by simpa [List.mem_replicate] using member⟩
  obtain ⟨arrived, b, attached, member⟩ := before
  obtain ⟨peer, ⟨⟩⟩ := attached.came_of_mem member

theorem Turned.nobody_of_unsent (turned : Turned c lines seen d) (unsent : .unsent ∈ seen) :
    d.socket.peer = none := by
  cases turned with
  | quiet attached =>
    obtain ⟨peer, ⟨⟩⟩ := attached.came_of_mem unsent
  | gone attached nobody => exact nobody
  | @read arrived b attached here data lost socket left =>
    by_cases none_lost : lost = 0
    · have before : .unsent ∈ arrived := by simpa [none_lost] using unsent
      obtain ⟨peer, ⟨⟩⟩ := attached.came_of_mem before
    · rwa [if_neg none_lost] at left

theorem Turned.keeps (turned : Turned c lines seen d) (keeps : c.Keeps stream)
    (clean : .unsent ∈ seen → d.pending = []) :
    d.Keeps (heardAfter stream seen) ∧
      ∀ text ∈ lines, Control.Line.SpelledIn text (heardAfter stream seen) := by
  cases turned with
  | quiet attached => exact ⟨attached.keeps keeps, by simp⟩
  | gone attached nobody => exact ⟨⟨List.nil_suffix, fun _ => rfl⟩, by simp⟩
  | @read arrived b attached here data lost socket left =>
    obtain ⟨inside, -⟩ := attached.keeps keeps
    rw [heardAfter_replicate_unsent]
    have buffered : b.pending ++ data <:+ heardAfter stream (.gave data :: arrived) := by
      obtain ⟨front, whole⟩ := inside
      exact ⟨front, by rw [← List.append_assoc, whole]; rfl⟩
    obtain ⟨rest, spelled⟩ :=
      Control.Line.takeAll_spelled Control.Line.defaultLimit (b.pending ++ data)
    refine ⟨⟨rest.trans buffered, ?_⟩, fun text member => (spelled text member).mono buffered⟩
    intro nobody
    have some_lost : lost ≠ 0 := by
      rintro rfl
      rw [if_pos rfl, show socket.peer = none from nobody] at left
      simp [← left] at here
    exact clean (by simp [some_lost])

end Channel

namespace Loop

variable (host : Host ω) {l : Loop ω}

/-- One move keeps this up: every line so far is of one client, and what is pending belongs to him
who is attached. -/
structure Kept (l : Loop ω) : Prop where
  log : OfOneClient l.log
  channel : l.broken = false → l.channel.Keeps (heard l.log)

theorem Kept.turn (kept : l.Kept) (m : Moment)
    (clean : l.LosesReply host m → (l.step host (.turn m)).channel.pending = []) :
    (l.step host (.turn m)).Kept := by
  cases going : l.broken with
  | true => rwa [step_turn_of_broken host m going]
  | false =>
    obtain ⟨lines, seen, log, -, loses, outcome⟩ := step_turn_cases host m going
    rcases outcome with ⟨broken, rfl, rfl⟩ | ⟨goes_on, turned⟩
    · refine ⟨?_, fun goes_on => absurd (broken.symm.trans goes_on) (by simp)⟩
      rw [log]
      exact kept.log
    · obtain ⟨keeps, spelled⟩ :=
        turned.keeps (kept.channel going) fun unsent => clean (loses.mpr unsent)
      rw [← heard_append] at keeps spelled
      have before : OfOneClient (seen ++ l.log) := kept.log.append turned.line_not_mem
      refine ⟨?_, fun _ => ?_⟩
      · rw [log]
        exact before.noting spelled
      · rw [log, heard_noting]
        exact keeps

theorem Kept.step (kept : l.Kept) (move : Move ω)
    (clean : ∀ m, move = .turn m → l.LosesReply host m →
      (l.step host (.turn m)).channel.pending = []) : (l.step host move).Kept := by
  cases move with
  | turn m => exact kept.turn host m (clean m rfl)
  | preview preview => exact ⟨kept.log, kept.channel⟩
  | world world => exact ⟨kept.log, kept.channel⟩

/-- Every turn in which a reply is lost leaves nothing pending. -/
def Clean (l : Loop ω) (moves : List (Move ω)) : Prop :=
  ∀ early m, early ++ [.turn m] <+: moves → (l.run host early).LosesReply host m →
    (l.run host (early ++ [.turn m])).channel.pending = []

theorem Kept.run {moves : List (Move ω)} (kept : l.Kept) (clean : Clean host l moves) :
    (l.run host moves).Kept := by
  induction moves using List.reverseRecOn with
  | nil => exact kept
  | append_singleton moves move ih =>
    have before := ih fun early m inside => clean early m (inside.trans (List.prefix_append _ _))
    rw [run_concat]
    refine before.step host move ?_
    rintro m rfl loses
    have pending := clean moves m List.prefix_rfl loses
    rwa [run_concat] at pending

theorem kept_start (socket : Socket) (preview : Preview) (world : ω) :
    (start socket preview world).Kept :=
  ⟨.nil, fun _ => ⟨List.nil_suffix, fun _ => rfl⟩⟩

/-- On any host, from any socket: if every turn in which a reply is lost leaves nothing pending,
then each line that is carried out was spelled by consecutive bytes of the client who was attached.
The turns are so exactly if no bytes are ever left while nobody is attached. -/
theorem run_lines_of_one_client (socket : Socket) (preview : Preview) (world : ω)
    (moves : List (Move ω)) :
    let l := start socket preview world
    (Clean host l moves → OfOneClient (l.run host moves).log) ∧
      (Clean host l moves ↔ ∀ early, early <+: moves → ¬ (l.run host early).LeavesBytes) := by
  intro l
  have kept : l.Kept := kept_start socket preview world
  refine ⟨fun clean => (kept.run host clean).log, ?_, ?_⟩
  · rintro clean early inside ⟨going, nobody, some_left⟩
    have clean_early : Clean host l early :=
      fun before m within => clean before m (within.trans inside)
    exact some_left (((kept.run host clean_early).channel going).nobody nobody)
  · intro never early m inside loses
    obtain ⟨lines, seen, -, -, unsent, outcome⟩ := step_turn_cases host m loses.1
    rw [unsent] at loses
    rcases outcome with ⟨-, -, rfl⟩ | ⟨goes_on, turned⟩
    · cases loses
    · have after := never (early ++ [.turn m]) inside
      rw [run_concat] at after ⊢
      by_contra some_left
      exact after ⟨goes_on, turned.nobody_of_unsent loses, some_left⟩

end Loop

/-! ### Two clients of a loop whose replies are lost -/

structure Script where
  coming : List (List Bytes)
  reads : List Bytes := []

def Script.host : Host Script where
  remove _ w := (.absent, w)
  listen _ w := (.ok ⟨0⟩, w)
  connect _ w := (.error .notConnected, w)
  accept _ w :=
    match w.coming with
    | [] => (.ok none, w)
    | reads :: rest => (.ok (some ⟨rest.length⟩), ⟨rest, reads⟩)
  poll _ w := (.ok true, w)
  read _ _ w :=
    match w.reads with
    | [] => (.ok .ended, w)
    | data :: rest => (.ok (.bytes data), { w with reads := rest })
  write _ _ w := (.error .notConnected, w)
  closeListener _ w := w
  closePeer _ w := w

namespace Loop

def awaiting (coming : List (List Bytes)) : Loop Script :=
  start { listener := some ⟨0⟩, isServer := true } (.ofConfig {} 0) { coming }

def twoTurns : List (Move Script) := [.turn ⟨0, 0⟩, .turn ⟨0, 0⟩]

theorem run_lines_of_one_client_each :
    let l := awaiting [[[120, 10]], [[116, 105, 97, 108, 10]]]
    OfOneClient (l.run Script.host twoTurns).log ∧
      .line "tial" ∈ (l.run Script.host twoTurns).log := by
  intro l
  obtain ⟨of_one_client, clean⟩ := run_lines_of_one_client Script.host
    { listener := some ⟨0⟩, isServer := true } (.ofConfig {} 0)
    { coming := [[[120, 10]], [[116, 105, 97, 108, 10]]] } twoTurns
  have nothing_left : ∀ early ∈ twoTurns.inits, (l.run Script.host early).channel.pending = [] := by
    decide +kernel
  refine ⟨of_one_client (clean.mpr ?_), by decide +kernel⟩
  rintro early inside ⟨-, -, some_left⟩
  exact some_left (nothing_left early ((List.mem_inits _ _).mpr inside))

/-- The first client sends "x", a line feed and "par", the second "tial" and a line feed. -/
theorem run_joins_two_clients :
    let l := awaiting [[[120, 10, 112, 97, 114]], [[116, 105, 97, 108, 10]]]
    ¬ OfOneClient (l.run Script.host twoTurns).log := by
  intro l of_one_client
  have log : (l.run Script.host twoTurns).log =
      [.line "partial", .unsent, .gave [116, 105, 97, 108, 10], .came ⟨0⟩, .line "x", .unsent,
        .gave [120, 10, 112, 97, 114], .came ⟨1⟩] := by decide +kernel
  rw [log] at of_one_client
  have spelled := of_one_client "partial" _ List.suffix_rfl
  obtain ⟨rest, inside, reads⟩ := spelled.exists_mem_tails
  have none_reads : ∀ rest ∈ List.tails ([116, 105, 97, 108, 10] : Bytes),
      (Text.Utf8.read (Control.Line.head rest)).toOption.map Text.trimmed ≠ some "partial" := by
    decide +kernel
  exact none_reads rest inside reads

end Loop

end ScreenPreview.Server
