import ScreenPreview.Proofs.Stream.Departures
import ScreenPreview.Proofs.Stream.Idle

/-!
Repetitions of the last picture on a wire buffer of constant room.

A picture becomes the last one before it is known whether the wire buffer has room for it. With a
sink that is ready and takes what it is given, a repetition is written exactly if the last picture
that was published has room (`run_repeats`). A larger one is in the way of all repetitions until
another picture is published (`oversize_not_repeated`).
-/
namespace ScreenPreview.Stream

def Event.pictures (trail : List Event) : List Bytes :=
  trail.filterMap fun
    | published picture => some picture
    | _ => none

def Verdict (room : Nat) (picture : Bytes) (result : Except Failure Outcome) : Prop :=
  if picture.length ≤ room then
    ∃ job quality bytes, result = .ok (Call.outcome (.picture job quality) bytes)
  else result = .error (.tooLarge picture.length room)

/-- What a call has published, by what it does next. -/
def Fate (room : Nat) (trail : List Event) : Call → Prop
  | .write (.picture _ _) | .record (.picture _ _) _ =>
    ∃ picture, Event.pictures trail = [picture] ∧ picture.length ≤ room
  | .resize _ => False
  | .done result =>
    ∀ picture ∈ Event.pictures trail, Verdict room picture result
  | _ => Event.pictures trail = []

/-- Nothing is asked of a feed that would change the room of its wire buffer or stop whole frames,
and the worlds stay within. -/
def Move.Keeps {ω : Type} (within : ω → Prop) : Move ω → Prop
  | .start _ request => request ≠ .fit
  | .advance _ _ => True
  | .control _ change => change ≠ .partsOnly true
  | .world w => within w

def Move.begins {ω : Type} : Move ω → Bool
  | .start _ _ => true
  | _ => false

variable {ω : Type} {sink : Sink ω} {within : ω → Prop} {n room : Nat} {f g : Feed} {c d : Call}
  {trail events : List Event}

/-! ### Section by section -/

def Feed.Roomy (reserve room : Nat) (f : Feed) : Prop := f.Fitted f.encoder reserve room

theorem Feed.Roomy.of_outlet (roomy : f.Roomy n room) (outlet : g.outlet = f.outlet) :
    g.Roomy n room := by
  obtain ⟨-, whole, reserves, room⟩ := roomy
  refine ⟨rfl, ?_, ?_, ?_⟩ <;> rw [outlet] <;> assumption

theorem pictures_append (trail rest : List Event) :
    Event.pictures (trail ++ rest) = Event.pictures trail ++ Event.pictures rest :=
  List.filterMap_append

theorem pictures_wrote (seen : List (Bytes × Except Failure Nat)) :
    Event.pictures (seen.map fun write => .wrote write.1 write.2) = [] := by
  rw [Event.pictures, List.filterMap_map, List.filterMap_eq_nil_iff]
  intro write member
  rfl

theorem fate_wrote {seen : List (Bytes × Except Failure Nat)} :
    Fate room (seen.map (fun write => .wrote write.1 write.2) ++ trail) c ↔ Fate room trail c := by
  have same : Event.pictures (seen.map (fun write => .wrote write.1 write.2) ++ trail) =
      Event.pictures trail := by
    rw [pictures_append, pictures_wrote, List.nil_append]
  cases c with
  | write purpose => cases purpose <;> simp only [Fate, same]
  | record purpose bytes => cases purpose <;> simp only [Fate, same]
  | _ => simp only [Fate, same]

theorem fate_done (none : Event.pictures trail = []) (result : Except Failure Outcome) :
    Fate room trail (.done result) := by
  rw [Fate, none]
  intro picture member
  cases member

theorem fate_done_of_one {picture : Bytes} (one : Event.pictures trail = [picture])
    {result : Except Failure Outcome} (verdict : Verdict room picture result) :
    Fate room trail (.done result) := by
  intro other member
  rw [one] at member
  rwa [List.mem_singleton.mp member]

theorem fate_encoded (none : Event.pictures trail = []) (job : Job)
    (answer : Except Failure UInt8) : Fate room trail (.encoded job answer) := by
  unfold Call.encoded
  split
  · split <;> exact none
  · split
    · exact none
    · exact fate_done none _
    · exact fate_done none _

def Owes (trail : List Event) (payload : Bytes) : Purpose → Prop
  | .picture _ _ => Event.pictures trail = [payload]
  | .resend => Event.pictures trail = []
  | .heartbeat => Event.pictures trail = []

theorem served_packed (roomy : f.Roomy n room) {purpose : Purpose} (header : Wire.Header)
    {payload : Bytes} (owes : Owes trail payload purpose) :
    (Call.packed purpose f (f.pack true header payload)).2.Roomy n room ∧
      Fate room trail (Call.packed purpose f (f.pack true header payload)).1 := by
  by_cases fits : payload.length ≤ room
  · obtain ⟨outlet, packs, -, ready⟩ := Feed.pack_of_fits roomy header fits
    rw [packs]
    refine ⟨ready, ?_⟩
    cases purpose with
    | picture job quality => exact ⟨payload, owes, fits⟩
    | resend => exact owes
    | heartbeat => exact owes
  · rw [Feed.pack_of_too_large roomy header (Nat.lt_of_not_le fits)]
    refine ⟨roomy, ?_⟩
    cases purpose with
    | picture job quality => exact fate_done_of_one owes (by rw [Verdict, if_neg fits])
    | resend => exact fate_done owes _
    | heartbeat => exact fate_done owes _

theorem served_section (serves : sink.Serves within) (now : Int) (roomy : f.Roomy n room)
    (there : ∀ purpose, c = .write purpose → ∃ wire, f.outlet.wire? = .ok wire)
    (fate : Fate room trail c) {w : ω} (here : within w) :
    let after := c.step sink.watched now f (w, [])
    after.2.1.Roomy n room ∧ within after.2.2.1 ∧
      Fate room (after.2.2.2.map (fun write => .wrote write.1 write.2) ++ c.shows f ++ trail)
        after.1 := by
  intro after
  rw [List.append_assoc, fate_wrote]
  cases c with
  | encode job =>
    refine ⟨?_, here, fate_encoded fate job _⟩
    apply roomy.of_outlet
    simp only [after, Call.step, Feed.encode]
    split <;> rfl
  | release job previous failure => exact ⟨roomy.of_outlet rfl, here, fate_done fate _⟩
  | accept job quality => exact ⟨roomy.of_outlet rfl, here, fate⟩
  | publish job quality =>
    have owes : Owes (.published f.output :: trail) f.output (.picture job quality) :=
      congrArg (f.output :: ·) fate
    have published : (f.publish job.admitted).Roomy n room := roomy.of_outlet rfl
    obtain ⟨ready, ended⟩ := served_packed published (f.header job.flags) owes
    simp only [after, Call.step, Sink.watched, serves.ready w here]
    exact ⟨ready, serves.asked w here, ended⟩
  | repack =>
    cases last : f.lastPicture with
    | none =>
      simp only [after, Call.step, last, Feed.packLast]
      exact ⟨roomy, here, fate_done fate _⟩
    | some picture =>
      have owes : Owes trail picture .resend := fate
      obtain ⟨ready, ended⟩ := served_packed roomy (f.header .resend) owes
      simp only [after, Call.step, last, Feed.packLast, Option.isSome_some, if_true, Sink.watched,
        serves.ready w here]
      exact ⟨ready, serves.asked w here, ended⟩
  | heartbeat => exact ⟨roomy, here, fate⟩
  | packHeartbeat header =>
    have owes : Owes trail [] .heartbeat := fate
    obtain ⟨ready, ended⟩ := served_packed roomy header owes
    simp only [after, Call.step, Sink.watched, serves.ready w here]
    exact ⟨ready, serves.asked w here, ended⟩
  | write purpose =>
    obtain ⟨wire, there⟩ := there purpose rfl
    obtain ⟨count, taken⟩ := serves.takes wire w here
    simp only [after, Call.step, Feed.write, Outlet.deliver, there, Sink.watched, taken]
    exact ⟨Feed.fitted_delivered roomy _, serves.wrote wire w here, by cases purpose <;> exact fate⟩
  | record purpose bytes =>
    have kept := (Call.recorded_keeps purpose now bytes f).1
    refine ⟨roomy.of_outlet kept, here, ?_⟩
    cases purpose with
    | picture job quality =>
      obtain ⟨picture, one, fits⟩ := fate
      have verdict : Verdict room picture (.ok (Call.outcome (.picture job quality) bytes)) := by
        rw [Verdict, if_pos fits]
        exact ⟨job, quality, bytes, rfl⟩
      exact fate_done_of_one one verdict
    | resend => exact fate_done fate _
    | heartbeat => exact fate_done fate _
  | resize capacity => exact fate.elim
  | done result => exact ⟨roomy, here, fate⟩

/-! ### Runs -/

theorem fate_opens {request : Request} (opens : request.Opens c) (sized : request ≠ .fit)
    (none : Event.pictures trail = []) : Fate room trail c := by
  cases opens with
  | encode serves => exact none
  | repack => exact none
  | heartbeat => exact none
  | resize capacity => exact absurd rfl sized
  | done _ quiet => exact fate_done none _

namespace Pool

structure Served (within : ω → Prop) (reserve room : Nat) (p : Pool ω) : Prop where
  roomy : p.feed.Roomy reserve room
  here : within p.world
  fates : ∀ number c, p.calls[number]? = some c → Fate room (p.log.own number) c

variable {p : Pool ω}

theorem served_start (sound : p.Sound sink n) (served : p.Served within n room) (now : Int)
    {request : Request} (sized : request ≠ .fit) :
    (p.step sink (.start now request)).Served within n room := by
  have opens := request.opens_enter now p.feed
  have outlet := (request.enter_keeps now p.feed).1
  rw [step_start]
  generalize (request.enter now p.feed).1 = c at *
  generalize (request.enter now p.feed).2 = feed at *
  refine ⟨served.roomy.of_outlet outlet, served.here, ?_⟩
  intro number d made
  rw [Log.own_append]
  rcases calls_append made with before | ⟨rfl, rfl⟩
  · have differ : number ≠ p.calls.length := by
      have := (List.getElem?_eq_some_iff.mp before).1
      omega
    rw [Log.own_of_other differ, List.nil_append]
    exact served.fates number d before
  · have new : p.log.own p.calls.length = [] :=
      Log.own_of_others fun entry member => Nat.ne_of_lt (sound.numbers entry member)
    rw [Log.own_of_own, new, List.append_nil]
    apply fate_opens opens sized
    unfold Call.claims
    split <;> rfl

theorem served_advance (serves : sink.Serves within) (sound : p.Sound sink n)
    (served : p.Served within n room) (now : Int) (number : Nat) :
    (p.step sink (.advance now number)).Served within n room := by
  cases made : p.calls[number]? with
  | none => simpa only [step, made] using served
  | some c =>
    cases free : p.free c.needs with
    | false => simpa [step, made, free] using served
    | true =>
      have there : ∀ purpose, c = .write purpose → ∃ wire, p.feed.outlet.wire? = .ok wire := by
        rintro purpose rfl
        obtain ⟨_, -, -, -, _, _, ⟨_, -, there⟩, -⟩ := sound.along number _ made
        exact ⟨_, there⟩
      obtain ⟨roomy, here, fate⟩ := served_section serves now served.roomy there
        (served.fates number c made) served.here
      simp only [step, made, free, if_true]
      refine ⟨roomy, here, ?_⟩
      intro other d other_made
      rw [Log.own_append]
      rcases calls_set other_made with ⟨rfl, rfl⟩ | ⟨differ, before⟩
      · rw [Log.own_of_own]
        exact fate
      · rw [Log.own_of_other differ, List.nil_append]
        exact served.fates other d before

theorem served_control (served : p.Served within n room) (now : Int) {change : Control}
    (whole : change ≠ .partsOnly true) :
    (p.step sink (.control now change)).Served within n room := by
  obtain ⟨-, -, -, outlet⟩ := Control.apply_keeps now p.feed change
  rcases p.step_control sink now change with same | ⟨-, step⟩
  · rwa [same]
  rw [step]
  refine ⟨?_, served.here, served.fates⟩
  cases needs : change.needs with
  | none => exact served.roomy.of_outlet (outlet needs)
  | some lock =>
    cases change with
    | partsOnly on =>
      cases on with
      | true => exact absurd rfl whole
      | false => exact ⟨rfl, rfl, served.roomy.reserves, served.roomy.room⟩
    | _ => cases needs

theorem served_step (serves : sink.Serves within) (sound : p.Sound sink n)
    (served : p.Served within n room) {move : Move ω} (keeps : move.Keeps within) :
    (p.step sink move).Served within n room := by
  cases move with
  | start now request => exact served_start sound served now keeps
  | advance now number => exact served_advance serves sound served now number
  | control now change => exact served_control served now keeps
  | world world => exact ⟨served.roomy, keeps, served.fates⟩

theorem served_run (serves : sink.Serves within) (sound : p.Sound sink n)
    (served : p.Served within n room) {moves : List (Move ω)}
    (keeps : ∀ move ∈ moves, move.Keeps within) : (p.run sink moves).Served within n room := by
  induction moves generalizing p with
  | nil => exact served
  | cons move rest ih =>
    rw [List.forall_mem_cons] at keeps
    exact ih (sound_step sound move) (served_step serves sound served keeps.1) keeps.2

theorem served_new (settings : Settings) (geometry : Screen.Geometry) (encoder : Picture.Encoder)
    (reserve : Nat) (now : Int) {world : ω} (here : within world) :
    (start (.new settings geometry encoder reserve now) world).Served within reserve
      (Feed.payloadRoom settings geometry.resolution) where
  roomy := Feed.fitted_new settings geometry encoder reserve now
  here
  fates := by
    intro number c made
    simp [start] at made

end Pool

/-! ### Repetitions -/

/-- What a repetition comes to with nothing between its sections: the answer, the feed behind it and
what was written. It depends on the last picture and on the room for it. -/
structure Repeated (reserve room : Nat) (last : Option Bytes) (f : Feed)
    (after : Except Failure Outcome × Feed × ω × Writes) : Prop where
  nothing : last = none → after.1 = .error .noPicture ∧ after.2.2.2 = []
  again : ∀ picture ∈ last, picture.length ≤ room →
    ∃ (bytes : Nat) (reserved : Bytes) (header : Wire.Header), after.1 = .ok (.written bytes) ∧
      reserved.length = reserve ∧ header.flags.includes .resend = true ∧
      (picture.length < UInt32.size → header.payloadLength.toNat = picture.length) ∧
      after.2.2.2 = [(reserved ++ header.toBytes ++ picture, .ok bytes)]
  refused : ∀ picture ∈ last, room < picture.length →
    after.1 = .error (.tooLarge picture.length room) ∧ after.2.1 = f ∧ after.2.2.2 = []

theorem repeated_packed (serves : sink.Serves within) (now : Int) (roomy : f.Roomy n room)
    (picture : Bytes) {w : ω} (here : within w) :
    Repeated n room (some picture) f
      ((Call.packed .resend f (f.pack true (f.header .resend) picture)).1.finish sink.watched now
        (Call.packed .resend f (f.pack true (f.header .resend) picture)).2 (w, [])) := by
  refine ⟨by simp, ?_, ?_⟩
  · rintro _ ⟨⟩ fits
    obtain ⟨outlet, packs, ⟨reserved, count, there⟩, -⟩ :=
      Feed.pack_of_fits roomy (f.header .resend) fits
    obtain ⟨bytes, taken⟩ := serves.takes _ w here
    have flagged := f.includes_header .resend .resend (by decide) (by decide)
    rw [packs]
    simp only [Call.packed]
    rw [Call.finish_write sink now .resend there taken]
    exact ⟨bytes, reserved, (f.header .resend).announcing picture, rfl, count, flagged,
      Wire.Header.payloadLength_announcing _, rfl⟩
  · rintro _ ⟨⟩ large
    rw [Feed.pack_of_too_large roomy (f.header .resend) large]
    exact ⟨rfl, rfl, rfl⟩

theorem repeated_carryOut (serves : sink.Serves within) (now : Int) (roomy : f.Roomy n room)
    {w : ω} (here : within w) :
    Repeated n room f.lastPicture f (f.carryOut sink.watched now .resend (w, [])) := by
  rw [Feed.carryOut, Call.intent, Call.finish_step]
  cases last : f.lastPicture with
  | none =>
    simp only [Call.step, last, Feed.packLast]
    exact ⟨fun _ => ⟨rfl, rfl⟩, by simp, by simp⟩
  | some picture =>
    have packed := repeated_packed serves now roomy picture (serves.asked w here)
    simp only [Call.step, last, Feed.packLast, Option.isSome_some, if_true, Sink.watched,
      serves.ready w here]
    exact packed

theorem Repeated.written_iff {last : Option Bytes}
    {after : Except Failure Outcome × Feed × ω × Writes} (repeated : Repeated n room last f after) :
    (∃ bytes, after.1 = .ok (.written bytes)) ↔ ∃ picture ∈ last, picture.length ≤ room := by
  constructor
  · rintro ⟨bytes, written⟩
    cases last with
    | none =>
      rw [(repeated.nothing rfl).1] at written
      cases written
    | some picture =>
      refine ⟨picture, rfl, Nat.le_of_not_lt fun large => ?_⟩
      rw [(repeated.refused picture rfl large).1] at written
      cases written
  · rintro ⟨picture, last, fits⟩
    obtain ⟨bytes, -, -, written, -⟩ := repeated.again picture last fits
    exact ⟨bytes, written⟩

namespace Pool

/-- However calls are interleaved on a new feed with a sink that is ready and takes what it is
given, as long as the wire buffer keeps its room and whole frames are sent: a call that has
published a picture wrote it if there is room and was refused otherwise. A repetition writes the
picture that was published last if there is room, and is refused otherwise. -/
theorem run_repeats (serves : sink.Serves within) (settings : Settings)
    (geometry : Screen.Geometry) (encoder : Picture.Encoder) (reserve : Nat) (began : Int)
    {world : ω} (here : within world) {moves : List (Move ω)}
    (keeps : ∀ move ∈ moves, move.Keeps within) :
    let room := Feed.payloadRoom settings geometry.resolution
    let p := (start (.new settings geometry encoder reserve began) world).run sink moves
    (∀ number result, p.calls[number]? = some (.done result) →
      ∀ picture, (number, .published picture) ∈ p.log → Verdict room picture result) ∧
    ∀ now,
      let after := p.feed.carryOut sink.watched now .resend (p.world, [])
      ((∃ bytes, after.1 = .ok (.written bytes)) ↔
        ∃ picture ∈ p.log.latest, picture.length ≤ room) ∧
      Repeated reserve room p.log.latest p.feed after := by
  intro room p
  have new : (start (.new settings geometry encoder reserve began) world).Sound sink reserve :=
    sound_new settings geometry encoder reserve began world
  have sound : p.Sound sink reserve := sound_run new moves
  have served : p.Served within reserve room :=
    served_run serves new (served_new settings geometry encoder reserve began here) keeps
  clear_value p
  refine ⟨?_, ?_⟩
  · intro number result made picture published
    have own : .published picture ∈ p.log.own number :=
      List.mem_filterMap.mpr ⟨_, published, if_pos rfl⟩
    exact served.fates number _ made picture (List.mem_filterMap.mpr ⟨_, own, rfl⟩)
  · intro now after
    have repeated := repeated_carryOut serves now served.roomy served.here
    rw [sound.last] at repeated
    exact ⟨repeated.written_iff, repeated⟩

def oneByOne (sink : Sink ω) : Pool ω → List (Move ω) → Bool
  | _, [] => true
  | p, move :: rest => (!move.begins || p.allDone) && oneByOne sink (p.step sink move) rest

def narrow : Pool Record :=
  start (.new { maxPayload := 4 } { resolution := .uniform ⟨1, 1⟩ }
    (fun frame => .ok (90, frame.data)) 0 0) {}

def handIn (number : Nat) (width : Int32) (data : Bytes) : List (Move Record) :=
  .start 0 (.frame { data, width, height := 1 }) :: List.replicate 4 (.advance 0 number)

theorem run_repeats_behind_fitting :
    let moves := handIn 0 2 [1, 2, 3, 4, 5, 6, 7, 8] ++ handIn 1 1 [9, 10, 11, 12]
    let p := narrow.run Record.sink moves
    p.calls[0]? = some (.done (.error (.tooLarge 8 4))) ∧
      ∃ bytes, (p.feed.carryOut Record.sink.watched 0 .resend (p.world, [])).1 =
        .ok (.written bytes) := by
  intro moves p
  have keeps : ∀ move ∈ moves, move.Keeps fun r : Record => r.ready = true ∧ r.failures = 0 := by
    simp [moves, handIn, Move.Keeps]
  have on : ({} : Record).ready = true ∧ ({} : Record).failures = 0 := ⟨rfl, rfl⟩
  obtain ⟨-, repeats⟩ := run_repeats Record.serves { maxPayload := 4 }
    { resolution := .uniform ⟨1, 1⟩ } (fun frame => .ok (90, frame.data)) 0 0 on keeps
  have last : p.log.latest = some [9, 10, 11, 12] := by decide +kernel
  exact ⟨rfl, (repeats 0).1.mpr ⟨[9, 10, 11, 12], last, by decide⟩⟩

def behindFitting : List (Move Record) :=
  handIn 0 1 [1, 2, 3, 4] ++ handIn 1 2 [5, 6, 7, 8, 9, 10, 11, 12]

theorem oversize_not_repeated :
    ¬ ∀ moves : List (Move Record), narrow.oneByOne Record.sink moves = true →
      (∀ move ∈ moves, move.Keeps fun r => r.ready = true ∧ r.failures = 0) →
      let p := narrow.run Record.sink moves
      (∃ number wire bytes, (number, .wrote wire (.ok bytes)) ∈ p.log) →
      ∃ bytes, (p.feed.carryOut Record.sink.watched 0 .resend (p.world, [])).1 =
        .ok (.written bytes) := by
  intro repeats
  have keeps : ∀ move ∈ behindFitting,
      move.Keeps fun r : Record => r.ready = true ∧ r.failures = 0 := by
    simp [behindFitting, handIn, Move.Keeps]
  have sent : (0, .wrote [0, 0, 0, 1, 0, 0, 0, 1, 0, 0, 0, 4, 0, 1, 2, 3, 4] (.ok 17)) ∈
      (narrow.run Record.sink behindFitting).log := List.mem_of_getElem? (i := 4) rfl
  obtain ⟨bytes, written⟩ := repeats behindFitting (by decide +kernel) keeps ⟨_, _, _, sent⟩
  have refused : ((narrow.run Record.sink behindFitting).feed.carryOut Record.sink.watched 0
      .resend ((narrow.run Record.sink behindFitting).world, [])).1 =
        .error (.tooLarge 8 4) := by
    decide +kernel
  rw [refused] at written
  cases written

end Pool

end ScreenPreview.Stream
