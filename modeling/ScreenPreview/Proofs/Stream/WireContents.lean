import ScreenPreview.Local.Socket
import ScreenPreview.Proofs.Stream.Ownership
import ScreenPreview.Stream.Record

/-!
What the writes of a pool carry.

A write hands over the wire buffer, of which its call is the owner. So the wire is made of what the
call packed, whatever other calls did between its sections (`run_wires`).
-/
namespace ScreenPreview.Stream

open Event (requests encodings writes)

/-- What a call hands to the sink, given what was done before: the reserved bytes, one header and
the payload that belongs to it. -/
structure Rightful (reserve : Nat) (older : Log) (number : Nat) (wire reserved : Bytes)
    (header : Wire.Header) (payload : Bytes) : Prop where
  layout : wire = reserved ++ header.toBytes ++ payload
  reserved : reserved.length = reserve
  announced : payload.length < UInt32.size → header.payloadLength.toNat = payload.length
  resend : header.flags.includes .resend = true → older.latest = some payload
  empty : header.flags.includes .empty = true → payload = []
  own : header.flags.includes .resend = false → header.flags.includes .empty = false →
    ∃ request frame quality, requests (older.own number) = [request] ∧
      request.frame? = some frame ∧
      encodings (older.own number) = [(frame.trimmed, .ok (quality, payload))]

variable {ω : Type} {sink : Sink ω} {n : Nat} {f g : Feed} {c d : Call} {trail events : List Event}
  {request : Request}

theorem rightful_section {number : Nat} {log : Log} (along : Along n f (log.own number) c)
    (last : f.lastPicture = log.latest) (taken : Call.Section sink c f events d g) {wire : Bytes}
    {result : Except Failure Nat} (wrote : .wrote wire result ∈ events) :
    ∃ reserved header payload, Rightful n log number wire reserved header payload := by
  obtain ⟨purpose, -, rfl, there, -⟩ := taken.of_wrote wrote
  obtain ⟨request, asked, suits, -, header, payload, ⟨reserved, count, packed⟩, carries⟩ := along
  rw [there, Except.ok.injEq] at packed
  have whole (resend : header.flags.includes .resend = true → log.latest = some payload)
      (empty : header.flags.includes .empty = true → payload = [])
      (own : header.flags.includes .resend = false → header.flags.includes .empty = false →
        ∃ frame quality, request.frame? = some frame ∧
          encodings (log.own number) = [(frame.trimmed, .ok (quality, payload))]) :
      Rightful n log number wire reserved (header.announcing payload) payload := by
    refine ⟨packed, count, header.payloadLength_announcing, resend, empty, ?_⟩
    intro fresh full
    obtain ⟨frame, quality, given, made⟩ := own fresh full
    exact ⟨request, frame, quality, asked, given, made⟩
  refine ⟨reserved, header.announcing payload, payload, ?_⟩
  cases suits with
  | picture serves quality =>
    obtain ⟨resend, empty, made⟩ := carries
    exact whole (by simp [resend]) (by simp [empty]) fun _ _ => ⟨_, quality, serves.frame_eq, made⟩
  | resend =>
    obtain ⟨resend, empty, same⟩ := carries
    exact whole (fun _ => last ▸ same) (by simp [empty]) (by simp [resend])
  | heartbeat =>
    obtain ⟨resend, empty, nothing⟩ := carries
    exact whole (by simp [resend]) (fun _ => nothing) (by simp [empty])

/-! ### Runs -/

namespace Pool

structure Sound (sink : Sink ω) (reserve : Nat) (p : Pool ω) : Prop where
  exclusive : p.Exclusive
  kept : p.feed.outlet.buffer.Reserves reserve
  last : p.feed.lastPicture = p.log.latest
  numbers : ∀ entry ∈ p.log, entry.1 < p.calls.length
  along : ∀ number c, p.calls[number]? = some c → Along reserve p.feed (p.log.own number) c
  rightful : ∀ older number wire result, (number, .wrote wire result) :: older <:+ p.log →
    ∃ reserved header payload, Rightful reserve older number wire reserved header payload
  answered : ∀ number wire result, (number, .wrote wire result) ∈ p.log →
    ∃ w, (sink.write wire w).1.result = result

variable {p : Pool ω}

theorem trail_start (c : Call) (request : Request) :
    requests (c.claims ++ [.asked request]) = [request] ∧
      encodings (c.claims ++ [.asked request]) = [] ∧
      writes (c.claims ++ [.asked request]) = [] := by
  unfold Call.claims
  split <;> exact ⟨rfl, rfl, rfl⟩

theorem wrote_not_mem_start {number writer : Nat} {c : Call} {wire : Bytes}
    {result : Except Failure Nat} :
    (writer, .wrote wire result) ∉ (c.claims ++ [Event.asked request]).map (number, ·) := by
  unfold Call.claims
  split <;> simp

theorem suffix_of_not_mem {entry : Nat × Event} {older fresh log : Log}
    (behind : entry :: older <:+ fresh ++ log) (other : entry ∉ fresh) :
    entry :: older <:+ log := by
  induction fresh with
  | nil => exact behind
  | cons first rest ih =>
    rw [List.mem_cons, not_or] at other
    rcases List.suffix_cons_iff.mp behind with same | later
    · exact absurd (List.cons.inj same).1 other.1
    · exact ih later other.2

theorem sound_start (sound : p.Sound sink n) (now : Int) (request : Request) :
    (p.step sink (.start now request)).Sound sink n := by
  have exclusive : (p.step sink (.start now request)).Exclusive :=
    exclusive_step sound.exclusive _
  obtain ⟨outlet, output, lastPicture⟩ := request.enter_keeps now p.feed
  have opens := request.opens_enter now p.feed
  rw [step_start] at exclusive ⊢
  generalize (request.enter now p.feed).1 = c at *
  generalize (request.enter now p.feed).2 = feed at *
  obtain ⟨asked, fresh, unwritten⟩ := trail_start c request
  refine ⟨exclusive, by rw [outlet]; exact sound.kept, ?_, ?_, ?_, ?_, ?_⟩
  · rw [lastPicture, sound.last]
    unfold Call.claims
    split <;> rfl
  · intro entry member
    rw [List.length_append, List.length_singleton]
    rcases List.mem_append.mp member with fresh | member
    · obtain ⟨event, -, rfl⟩ := List.mem_map.mp fresh
      exact Nat.lt_succ_self _
    · exact Nat.lt_succ_of_lt (sound.numbers entry member)
  · intro number d made
    rw [Log.own_append]
    rcases calls_append made with before | ⟨rfl, rfl⟩
    · have differ : number ≠ p.calls.length := by
        have := (List.getElem?_eq_some_iff.mp before).1
        omega
      rw [Log.own_of_other differ, List.nil_append]
      exact (sound.along number d before).frame (fun _ => output) fun _ => ⟨outlet, lastPicture⟩
    · have new : p.log.own p.calls.length = [] :=
        Log.own_of_others fun entry member => Nat.ne_of_lt (sound.numbers entry member)
      rw [Log.own_of_own, new, List.append_nil]
      exact ⟨request, asked, stage_opens opens _ fresh unwritten⟩
  · intro older writer wire result behind
    exact sound.rightful older writer wire result (suffix_of_not_mem behind wrote_not_mem_start)
  · intro writer wire result member
    rcases List.mem_append.mp member with fresh | member
    · exact absurd fresh wrote_not_mem_start
    · exact sound.answered writer wire result member

theorem sound_advance (sound : p.Sound sink n) (now : Int) (number : Nat) :
    (p.step sink (.advance now number)).Sound sink n := by
  rcases p.step_advance sink now number with
    same | ⟨c, d, events, feed, world, made, free, taken, step⟩
  · rwa [same]
  have along := sound.along number c made
  have exclusive : (p.step sink (.advance now number)).Exclusive :=
    exclusive_step sound.exclusive _
  rw [step] at exclusive ⊢
  refine ⟨exclusive, reserves_section sound.kept taken, latest_section sound.last taken,
    ?_, ?_, ?_, ?_⟩
  · intro entry member
    rw [List.length_set]
    rcases List.mem_append.mp member with fresh | member
    · obtain ⟨event, -, rfl⟩ := List.mem_map.mp fresh
      exact List.getElem?_eq_some_iff.mp made |>.1
    · exact sound.numbers entry member
  · intro other e other_made
    rw [Log.own_append]
    rcases calls_set other_made with ⟨rfl, rfl⟩ | ⟨differ, before⟩
    · rw [Log.own_of_own]
      exact along.section sound.kept taken
    · rw [Log.own_of_other differ, List.nil_append]
      have apart {lock : Call.Lock} (held : lock ∈ e.holds) : ¬ c.Uses lock :=
        sound.exclusive.apart made free before differ held
      exact (sound.along other e before).frame (fun held => taken.output_eq (apart held))
        fun held => taken.outlet_eq (apart held)
  · intro older writer wire result behind
    rcases taken.events_cases with rfl | ⟨event, rfl⟩
    · exact sound.rightful older writer wire result behind
    · rcases List.suffix_cons_iff.mp behind with first | later
      · injection first with entry older
        injection entry with writer event
        subst older writer event
        exact rightful_section along sound.last taken List.mem_cons_self
      · exact sound.rightful older writer wire result later
  · intro writer wire result member
    rcases List.mem_append.mp member with fresh | member
    · obtain ⟨event, wrote, same⟩ := List.mem_map.mp fresh
      injection same with _ event
      subst event
      obtain ⟨-, w, -, -, answer⟩ := taken.of_wrote wrote
      exact ⟨w, answer⟩
    · exact sound.answered writer wire result member

theorem sound_control (sound : p.Sound sink n) (now : Int) (change : Control) :
    (p.step sink (.control now change)).Sound sink n := by
  have exclusive : (p.step sink (.control now change)).Exclusive :=
    exclusive_step sound.exclusive _
  obtain ⟨output, lastPicture, buffer, -⟩ := Control.apply_keeps now p.feed change
  rcases p.step_control sink now change with same | ⟨free, step⟩
  · rwa [same]
  rw [step] at exclusive ⊢
  refine ⟨exclusive, by rw [buffer]; exact sound.kept, lastPicture.trans sound.last,
    sound.numbers, ?_, sound.rightful, sound.answered⟩
  intro number c made
  exact (sound.along number c made).frame (fun _ => output) fun held =>
    ⟨outlet_control now free made held, lastPicture⟩

theorem sound_step (sound : p.Sound sink n) (move : Move ω) : (p.step sink move).Sound sink n := by
  cases move with
  | start now request => exact sound_start sound now request
  | advance now number => exact sound_advance sound now number
  | control now change => exact sound_control sound now change
  | world world =>
    obtain ⟨exclusive, kept, last, numbers, along, rightful, answered⟩ := sound
    exact ⟨exclusive, kept, last, numbers, along, rightful, answered⟩

theorem sound_run (sound : p.Sound sink n) (moves : List (Move ω)) :
    (p.run sink moves).Sound sink n := by
  induction moves generalizing p with
  | nil => exact sound
  | cons move rest ih => exact ih (sound_step sound move)

theorem sound_new (settings : Settings) (geometry : Screen.Geometry) (encoder : Picture.Encoder)
    (reserve : Nat) (now : Int) (world : ω) :
    (start (.new settings geometry encoder reserve now) world).Sound sink reserve := by
  refine ⟨?_, PackBuffer.reserves_allocate reserve _, rfl, ?_, ?_, ?_, ?_⟩
  · intro lock number other c d made
    simp [start] at made
  · simp [start]
  · intro number c made
    simp [start] at made
  · intro older number wire result behind
    simp [start] at behind
  · simp [start]

end Pool

/-! ### Results -/

/-- What a successful write gives is the length of the wire. -/
def Sink.Reports (sink : Sink ω) : Prop :=
  ∀ wire w bytes, (sink.write wire w).1.result = .ok bytes → bytes = wire.length

theorem reports_record : Record.sink.Reports := by
  intro wire r bytes written
  simp only [Record.sink] at written
  split at written
  · cases written
  · cases written
    rfl

theorem reports_socket (host : Local.Host ω) : (Local.Socket.sink host).Reports := by
  rintro wire ⟨s, w⟩ bytes written
  simp only [Local.Socket.sink, Local.Socket.write] at written
  split at written
  · cases written
  · split at written
    · cases written
    · split at written
      · cases written
        rfl
      · unfold Local.Socket.listenAgainAfter at written
        split at written <;> cases written

/-- The result of a frame call agrees with what it wrote. -/
structure Answers (sink : Sink ω) (trail : List Event) (result : Except Failure Outcome) :
    Prop where
  once : (writes trail).length ≤ 1
  sent : ∀ bytes, (∃ quality, result = .ok (.sent bytes quality)) ↔
    ∃ wire, (wire, .ok bytes) ∈ writes trail
  length : sink.Reports → ∀ wire bytes, (wire, .ok bytes) ∈ writes trail → bytes = wire.length

theorem outcome_of_frame {pixels : Picture.Pixels} {purpose : Purpose} (bytes : Nat)
    (suits : Suits request purpose)
    (frame : request = .frame pixels ∨ request = .loadFrame pixels) :
    ∃ quality, Call.outcome purpose bytes = .sent bytes quality := by
  cases suits with
  | picture serves quality =>
    cases serves with
    | live => exact ⟨quality, rfl⟩
    | load => exact ⟨quality, rfl⟩
    | replay => rcases frame with same | same <;> cases same
  | resend => rcases frame with same | same <;> cases same
  | heartbeat => rcases frame with same | same <;> cases same

theorem once_of_settled {result : Except Failure Outcome} (settled : Settled request trail result) :
    (writes trail).length ≤ 1 := by
  cases settled with
  | unwritten none => simp [none]
  | failed none => simp [none]
  | broke one => simp [one]
  | wrote suits one => simp [one]

theorem sent_of_settled {pixels : Picture.Pixels} {result : Except Failure Outcome}
    (settled : Settled request trail result)
    (frame : request = .frame pixels ∨ request = .loadFrame pixels) (bytes : Nat) :
    (∃ quality, result = .ok (.sent bytes quality)) ↔
      ∃ wire, (wire, .ok bytes) ∈ writes trail := by
  cases settled with
  | unwritten none unsent => simpa [none] using unsent bytes
  | failed none => simp [none]
  | broke one => simp [one]
  | wrote suits one =>
    rename_i purpose wire count
    obtain ⟨quality, same⟩ := outcome_of_frame count suits frame
    simp [one, same, eq_comm]

theorem mem_requests {trail : List Event} :
    request ∈ requests trail ↔ .asked request ∈ trail := by
  constructor
  · intro member
    obtain ⟨event, member, same⟩ := List.mem_filterMap.mp member
    split at same <;> cases same
    exact member
  · intro member
    exact List.mem_filterMap.mpr ⟨_, member, rfl⟩

theorem wrote_of_mem_writes {log : Log} {number : Nat} {wire : Bytes} {result : Except Failure Nat}
    (member : (wire, result) ∈ writes (log.own number)) : (number, .wrote wire result) ∈ log := by
  obtain ⟨event, member, same⟩ := List.mem_filterMap.mp member
  split at same <;> cases same
  obtain ⟨⟨writer, event⟩, member, same⟩ := List.mem_filterMap.mp member
  split at same
  · rename_i own
    cases same
    exact own ▸ member
  · cases same

/-- However calls are interleaved on a new feed, and whatever the encoder and the sink answer: every
write carries what belongs to it, the result of a frame call agrees with what it wrote, and no write
ever finds the wire buffer without a packed frame. -/
theorem Pool.run_wires (sink : Sink ω) (settings : Settings) (geometry : Screen.Geometry)
    (encoder : Picture.Encoder) (reserve : Nat) (now : Int) (world : ω) (moves : List (Move ω)) :
    let p := (start (.new settings geometry encoder reserve now) world).run sink moves
    (∀ older number wire result, (number, .wrote wire result) :: older <:+ p.log →
      ∃ reserved header payload, Rightful reserve older number wire reserved header payload) ∧
    (∀ (number : Nat) result pixels, p.calls[number]? = some (.done result) →
      (.asked (.frame pixels) ∈ p.log.own number ∨ .asked (.loadFrame pixels) ∈ p.log.own number) →
      Answers sink (p.log.own number) result) ∧
    (∀ (number : Nat) purpose, p.calls[number]? = some (.write purpose) →
      ∃ wire, p.feed.outlet.wire? = .ok wire) ∧
    (∀ (number : Nat), p.calls[number]? = some (.done (.error .nothingPacked)) →
      (∃ given, (given, .error .nothingPacked) ∈ encodings (p.log.own number)) ∨
        ∃ wire, (wire, .error .nothingPacked) ∈ writes (p.log.own number)) := by
  intro p
  have sound : p.Sound sink reserve :=
    sound_run (sound_new settings geometry encoder reserve now world) moves
  clear_value p
  refine ⟨sound.rightful, ?_, ?_, ?_⟩
  · intro number result pixels made handed
    obtain ⟨request, asked, settled⟩ := sound.along number _ made
    have frame : request = .frame pixels ∨ request = .loadFrame pixels := by
      rcases handed with handed | handed
      · rw [← mem_requests, asked, List.mem_singleton] at handed
        exact Or.inl handed.symm
      · rw [← mem_requests, asked, List.mem_singleton] at handed
        exact Or.inr handed.symm
    refine ⟨once_of_settled settled, sent_of_settled settled frame, ?_⟩
    intro reports wire bytes member
    obtain ⟨w, answer⟩ := sound.answered number wire _ (wrote_of_mem_writes member)
    exact reports wire w bytes answer
  · intro number purpose made
    obtain ⟨_, -, -, -, _, _, ⟨_, -, there⟩, -⟩ := sound.along number _ made
    exact ⟨_, there⟩
  · intro number made
    obtain ⟨request, -, settled⟩ := sound.along number _ made
    generalize result : (Except.error Failure.nothingPacked : Except Failure Outcome) = r at settled
    cases settled with
    | unwritten => cases result
    | failed none excused =>
      cases result
      exact Or.inl (excused rfl)
    | broke one =>
      rename_i wire failure
      cases result
      exact Or.inr ⟨wire, by simp [one]⟩
    | wrote => cases result

def allAtOnce : List (Move Record) :=
  [.control 0 (.loadState .finished),
    .start 0 (.frame { data := [1, 2, 3, 4, 5], width := 1, height := 1 }), .advance 0 0,
    .start 1 (.loadFrame { data := [6, 7, 8, 9], width := 1, height := 1 }), .start 2 .fit,
    .start 3 (.intent .resend), .start 4 (.intent .heartbeat), .advance 5 1, .advance 6 0,
    .advance 7 2, .advance 8 3, .advance 9 0, .advance 10 0, .advance 11 1, .advance 12 3,
    .advance 13 1, .advance 14 1, .advance 15 3, .advance 16 3, .advance 17 2, .advance 18 1,
    .advance 19 4, .advance 20 1, .advance 21 1, .advance 22 4, .advance 23 4, .advance 24 4]

example : ((Pool.start (.new {} { resolution := .uniform ⟨1, 1⟩ } (fun p => .ok (90, p.data)) 2 0)
    { reserve := 2 }).run Record.sink allAtOnce).world.writes.reverse =
    [[0, 0, 0, 0, 0, 1, 0, 0, 0, 1, 0, 0, 0, 4, 0, 1, 2, 3, 4],
      [0xEE, 0xEE, 0, 0, 0, 1, 0, 0, 0, 1, 0, 0, 0, 4, 2, 1, 2, 3, 4],
      [0, 0, 0, 0, 0, 1, 0, 0, 0, 1, 0, 0, 0, 4, 32, 6, 7, 8, 9],
      [0xEE, 0xEE, 0, 0, 0, 1, 0, 0, 0, 1, 0, 0, 0, 0, 1]] := by decide

end ScreenPreview.Stream
