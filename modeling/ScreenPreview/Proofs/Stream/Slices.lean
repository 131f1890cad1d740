import ScreenPreview.Local.Socket
import ScreenPreview.Proofs.Picture.Colours
import ScreenPreview.Proofs.Stream.Alone
import ScreenPreview.Proofs.Stream.Replays

/-!
The bytes that are taken out of frames, and the frames that are held back.

A frame is cut to its size in three places: where it is held back, where it is given to the encoder
and where the encoder gathers its colours. It was checked before that, though other calls may have
come between. If every such cut is checked once more, no run ever fails for it, and a frame that
was held back still passes its check when it is replayed (`run_slices`).
-/
namespace ScreenPreview

def Failure.refusesFrame : Failure → Bool
  | frameSize .. | noPixels | shortPixels .. => true
  | _ => false

/-- The encoder calls no frame malformed that passes its check. -/
def Picture.Encoder.Heeds (e : Picture.Encoder) : Prop :=
  ∀ p failure, p.check = .ok () → e p = .error failure → failure.refusesFrame = false

/-- A write does not fail because a frame is malformed. -/
def Stream.Sink.Heeds {ω : Type} (sink : Stream.Sink ω) : Prop :=
  ∀ wire w failure, (sink.write wire w).1.result = .error failure → failure.refusesFrame = false

structure Local.Host.Heeds {ω : Type} (host : Local.Host ω) : Prop where
  listen : ∀ path w failure, (host.listen path w).1 = .error failure → failure.refusesFrame = false
  write : ∀ peer data w failure, (host.write peer data w).1 = .error failure →
    failure.refusesFrame = false

/-! ### Encoders and sinks -/

namespace Picture.Jpeg

def Counting.gather? (c : Counting) (frame : Pixels) : Option Counting :=
  frame.slice?.map fun data => { c with rgb := frame.format.addColours (c.rgb.shrink 0) data }

def Counting.encode? (c : Counting) (frame : Pixels) :
    Option (Except Failure (UInt8 × Bytes) × Counting) :=
  match frame.check with
  | .error failure => some (.error failure, c)
  | .ok () => (c.gather? frame).map (·.compress frame)

theorem Counting.encode?_eq (c : Counting) (frame : Pixels) :
    c.encode? frame = some (c.encode frame) := by
  unfold encode? encode
  cases valid : frame.check with
  | error failure => rfl
  | ok _ =>
    simp only [gather?, Pixels.slice?_of_check valid]
    rfl

theorem refusesFrame_of_ofColours {width height quality : Nat} {colours : Bytes}
    {failure : Failure} (failed : ofColours width height quality colours = .error failure) :
    failure.refusesFrame = false := by
  unfold ofColours at failed
  split at failed
  · cases failed
    rfl
  · cases failed

theorem heeds_encode : Encoder.Heeds Jpeg.encode := by
  intro p failure valid failed
  simp only [Jpeg.encode, valid, bind, Except.bind] at failed
  split at failed
  · next long =>
    cases failed
    exact refusesFrame_of_ofColours long
  · cases failed

end Picture.Jpeg

namespace Stream

theorem heeds_record : Record.sink.Heeds := by
  intro wire r failure failed
  simp only [Record.sink] at failed
  split at failed
  · cases failed
    rfl
  · cases failed

section Socket

variable {ω : Type} {host : Local.Host ω} {s : Local.Socket} {w : ω} {failure : Failure}

theorem heeds_bind (heeds : host.Heeds) {path : String}
    (failed : (Local.Socket.bind host path w).1 = .error failure) :
    failure.refusesFrame = false := by
  unfold Local.Socket.bind at failed
  split at failed
  · cases failed
    rfl
  · exact heeds.listen _ _ _ failed
  · exact heeds.listen _ _ _ failed

theorem heeds_listenAgain (heeds : host.Heeds)
    (failed : (s.listenAgain host w).1 = .error failure) : failure.refusesFrame = false := by
  unfold Local.Socket.listenAgain at failed
  simp only at failed
  split at failed
  · cases failed
  · split at failed
    · cases failed
      rfl
    · split at failed
      · next bound =>
        cases failed
        exact heeds_bind heeds (congrArg Prod.fst bound)
      · cases failed

theorem heeds_socket (heeds : host.Heeds) : (Local.Socket.sink host).Heeds := by
  rintro wire ⟨s, w⟩ failure failed
  simp only [Local.Socket.sink, Local.Socket.write] at failed
  split at failed
  · cases failed
    rfl
  · split at failed
    · cases failed
      rfl
    · split at failed
      · cases failed
      · next wrote =>
        unfold Local.Socket.listenAgainAfter at failed
        split at failed
        · cases failed
          exact heeds.write _ _ _ _ (congrArg Prod.fst wrote)
        · next again =>
          cases failed
          exact heeds_listenAgain heeds (congrArg Prod.fst again)

end Socket

/-! ### Checked sections -/

namespace Feed

def admitLoad? (f : Feed) (frame : Picture.Pixels) : Option (LoadAdmission × Feed) :=
  if frame.timestamp < f.upkeep.loadStamp then some (.stale, f)
  else
    let upkeep := { f.upkeep with frameStamp := frame.timestamp }
    if upkeep.loadState ≠ .finished then
      frame.slice?.map fun data =>
        (.cached, { f with
          upkeep := upkeep.hold ⟨frame.width, frame.height, frame.timestamp, data⟩ })
    else some (.admitted, { f with upkeep })

def encode? (f : Feed) (frame : Picture.Pixels) : Option (Except Failure UInt8 × Feed) :=
  frame.slice?.map fun data =>
    match f.encoder { frame with data } with
    | .error failure => (.error failure, { f with output := [] })
    | .ok (quality, picture) =>
      (if picture.isEmpty then .error (.encoding .noOutput) else .ok quality,
        { f with output := picture })

variable {frame : Picture.Pixels}

theorem admitLoad?_of_check (f : Feed) (valid : frame.check = .ok ()) :
    f.admitLoad? frame = some (f.admitLoad frame) := by
  unfold admitLoad? admitLoad
  rw [Picture.Pixels.slice?_of_check valid]
  split
  · rfl
  · simp only
    split <;> rfl

theorem encode?_of_check (f : Feed) (valid : frame.check = .ok ()) :
    f.encode? frame = some (f.encode frame) := by
  rw [encode?, Picture.Pixels.slice?_of_check valid]
  rfl

theorem refusesFrame_of_pack {f : Feed} {ready : Bool} {header : Wire.Header} {payload : Bytes}
    {failure : Failure} (refused : f.pack ready header payload = .error failure) :
    failure.refusesFrame = false := by
  rcases pack_error_cases refused with rfl | rfl | ⟨size, limit, rfl⟩ <;> rfl

theorem refusesFrame_of_encode {f : Feed} {failure : Failure} (heeds : f.encoder.Heeds)
    (valid : frame.check = .ok ()) (failed : (f.encode frame).1 = .error failure) :
    failure.refusesFrame = false := by
  unfold encode at failed
  split at failed
  · rename_i answer
    cases failed
    exact heeds _ _ (Picture.Pixels.check_trimmed valid) answer
  · simp only at failed
    split at failed
    · cases failed
      rfl
    · cases failed

end Feed

def Call.loadFrame? (f : Feed) (now : Int) (frame : Picture.Pixels) : Option (Call × Feed) :=
  match frame.check with
  | .error failure => some (done (.error failure), f)
  | .ok () => (f.admitLoad? frame).map fun
    | (.admitted, f) => (encode ⟨frame, now, .load⟩, f)
    | (.cached, f) => (done (.ok .cached), f)
    | (.stale, f) => (done (.ok .stale), f)

def Request.enter? (request : Request) (now : Int) (f : Feed) : Option (Call × Feed) :=
  match request with
  | .loadFrame pixels => Call.loadFrame? f now pixels
  | request => some (request.enter now f)

/-- The next section of a call. No other takes a slice. -/
def Call.step? {ω : Type} (sink : Sink ω) (now : Int) (c : Call) (f : Feed) (w : ω) :
    Option (Call × Feed × ω) :=
  match c with
  | encode job => (f.encode? job.frame).map fun (result, f) => (encoded job result, f, w)
  | c => some (c.step sink now f w)

theorem Request.enter?_eq (request : Request) (now : Int) (f : Feed) :
    request.enter? now f = some (request.enter now f) := by
  cases request with
  | loadFrame pixels =>
    simp only [enter?, enter, Call.loadFrame?, Call.loadFrame]
    cases valid : pixels.check with
    | error failure => rfl
    | ok _ =>
      rw [f.admitLoad?_of_check valid]
      rcases f.admitLoad pixels with ⟨admission, g⟩
      cases admission <;> rfl
  | _ => rfl

namespace Call

def Valid (c : Call) : Prop := ∀ job, c = encode job → job.frame.check = .ok ()

def Unrefused : Call → Prop
  | release _ _ failure => failure.refusesFrame = false
  | done (.error failure) => failure.refusesFrame = false
  | _ => True

variable {ω : Type} {sink : Sink ω} {c d : Call} {f g : Feed} {events : List Event}

theorem step?_of_valid (valid : c.Valid) (now : Int) (f : Feed) (w : ω) :
    c.step? sink now f w = some (c.step sink now f w) := by
  cases c with
  | encode job =>
    simp only [step?, f.encode?_of_check (valid job rfl)]
    rfl
  | _ => rfl

theorem valid_enter (request : Request) (now : Int) (f : Feed) : (request.enter now f).1.Valid := by
  intro job entered
  cases request with
  | frame pixels =>
    simp only [Request.enter, frame] at entered
    split at entered
    · cases entered
    · rename_i valid
      split at entered <;> cases entered
      exact valid
  | loadFrame pixels =>
    simp only [Request.enter, loadFrame] at entered
    split at entered
    · cases entered
    · rename_i valid
      split at entered <;> cases entered
      exact valid
  | intent due =>
    cases due with
    | replay held =>
      simp only [Request.enter, intent] at entered
      split at entered
      · cases entered
      · rename_i valid
        cases entered
        exact valid
    | _ => cases entered
  | fit => cases entered

theorem Section.valid (taken : Section sink c f events d g) : d.Valid := by
  cases taken with
  | encode =>
    intro job made
    unfold encoded at made
    split at made <;> split at made <;> cases made
  | _ =>
    intro job made
    cases made

theorem unrefused_encoded {job : Job} {result : Except Failure UInt8}
    (heeded : ∀ failure, result = .error failure → failure.refusesFrame = false) :
    (encoded job result).Unrefused := by
  unfold encoded
  cases result with
  | ok quality => cases job.route <;> trivial
  | error failure => cases job.route <;> exact heeded failure rfl

theorem Section.unrefused (taken : Section sink c f events d g) (sink_heeds : sink.Heeds)
    (heeds : f.encoder.Heeds) (valid : c.Valid) (unrefused : c.Unrefused) : d.Unrefused := by
  cases taken with
  | encode job =>
    exact unrefused_encoded fun failure => Feed.refusesFrame_of_encode heeds (valid job rfl)
  | release => exact unrefused
  | unpacked packing refused => exact Feed.refusesFrame_of_pack refused
  | noPicture => rfl
  | broke purpose w there failed => exact sink_heeds _ _ _ failed
  | nothing purpose missing =>
    unfold Outlet.wire? at missing
    split at missing <;> cases missing
    rfl
  | done => exact unrefused
  | _ => trivial

end Call

/-! ### Runs -/

def Move.Heeds {ω : Type} : Move ω → Prop
  | .control _ (.encoder next) => Picture.Encoder.Heeds next
  | _ => True

namespace Pool

variable {ω : Type} {sink : Sink ω} {p : Pool ω} {number : Nat} {move : Move ω}

def step? (sink : Sink ω) (p : Pool ω) : Move ω → Option (Pool ω)
  | .start now request => (request.enter? now p.feed).map fun (c, feed) =>
    { p with
      feed
      calls := p.calls ++ [c]
      log := (c.claims ++ [Event.asked request]).map (p.calls.length, ·) ++ p.log }
  | .advance now number =>
    match p.calls[number]? with
    | none => some p
    | some c =>
      if p.free c.needs then
        (c.step? sink.watched now p.feed (p.world, [])).map fun (d, feed, world, seen) =>
          let events := seen.map (fun write => Event.wrote write.1 write.2) ++ c.shows p.feed
          { feed, world
            calls := p.calls.set number d
            log := events.map (number, ·) ++ p.log }
      else some p
  | move => some (p.step sink move)

def run? (sink : Sink ω) (p : Pool ω) (moves : List (Move ω)) : Option (Pool ω) :=
  moves.foldlM (step? sink) p

def Valid (p : Pool ω) : Prop := ∀ (number : Nat) (c : Call), p.calls[number]? = some c → c.Valid

theorem call_step (sink : Sink ω) (p : Pool ω) (move : Move ω) {number : Nat} {c : Call}
    (there : (p.step sink move).calls[number]? = some c) :
    p.calls[number]? = some c ∨
      (∃ now request, move = .start now request ∧ number = p.calls.length ∧
        c = (request.enter now p.feed).1) ∨
      ∃ b events g, p.calls[number]? = some b ∧ Call.Section sink b p.feed events c g := by
  cases move with
  | start now request =>
    rw [step_start] at there
    rcases calls_append there with before | ⟨last, made⟩
    · exact Or.inl before
    · exact Or.inr (Or.inl ⟨now, request, rfl, last, made⟩)
  | advance now turn =>
    rcases p.step_advance sink now turn with same | ⟨b, d, events, g, world, before, -, taken, step⟩
    · rw [same] at there
      exact Or.inl there
    · rw [step] at there
      rcases calls_set there with ⟨rfl, rfl⟩ | ⟨-, before⟩
      · exact Or.inr (Or.inr ⟨b, events, g, before, taken⟩)
      · exact Or.inl before
  | control now change =>
    rcases p.step_control sink now change with same | ⟨-, step⟩
    · rw [same] at there
      exact Or.inl there
    · rw [step] at there
      exact Or.inl there
  | world world => exact Or.inl there

theorem valid_step (valid : p.Valid) (move : Move ω) : (p.step sink move).Valid := by
  intro number c there
  rcases p.call_step sink move there with
    before | ⟨now, request, -, -, rfl⟩ | ⟨_, _, _, -, taken⟩
  · exact valid number c before
  · exact Call.valid_enter request now p.feed
  · exact taken.valid

theorem valid_run (valid : p.Valid) (moves : List (Move ω)) : (p.run sink moves).Valid := by
  induction moves generalizing p with
  | nil => exact valid
  | cons move rest ih => exact ih (valid_step valid move)

theorem valid_start (feed : Feed) (world : ω) : (start feed world).Valid := by
  intro number c there
  simp [start] at there

theorem step?_of_valid (valid : p.Valid) (move : Move ω) :
    p.step? sink move = some (p.step sink move) := by
  cases move with
  | start now request =>
    rw [step?, request.enter?_eq]
    rfl
  | advance now number =>
    cases there : p.calls[number]? with
    | none => simp only [step?, step, there]
    | some c =>
      simp only [step?, step, there, Call.step?_of_valid (valid number c there)]
      split <;> rfl
  | control now change => rfl
  | world world => rfl

theorem run?_of_valid (valid : p.Valid) (moves : List (Move ω)) :
    p.run? sink moves = some (p.run sink moves) := by
  induction moves generalizing p with
  | nil => rfl
  | cons move rest ih =>
    rw [run?, List.foldlM_cons, step?_of_valid valid]
    exact ih (valid_step valid move)

structure Spares (number : Nat) (p : Pool ω) : Prop where
  valid : p.Valid
  encoder : p.feed.encoder.Heeds
  made : number < p.calls.length
  unrefused : ∀ c, p.calls[number]? = some c → c.Unrefused

theorem heeds_step (heeds : p.feed.encoder.Heeds) (next : move.Heeds) :
    (p.step sink move).feed.encoder.Heeds := by
  cases move with
  | start now request =>
    obtain ⟨_, _, _, same⟩ := request.enter_feed now p.feed
    rwa [step_start, same]
  | advance now number =>
    rcases p.step_advance sink now number with same | ⟨_, _, _, _, _, -, -, taken, step⟩
    · rwa [same]
    · rw [step]
      exact taken.encoder_eq ▸ heeds
  | control now change =>
    rcases p.step_control sink now change with same | ⟨-, step⟩
    · rwa [same]
    · rw [step]
      cases change with
      | encoder encoder => exact next
      | _ => exact heeds
  | world world => exact heeds

theorem heeds_run (heeds : p.feed.encoder.Heeds) {moves : List (Move ω)}
    (next : ∀ move ∈ moves, move.Heeds) : (p.run sink moves).feed.encoder.Heeds := by
  induction moves generalizing p with
  | nil => exact heeds
  | cons move rest ih =>
    rw [List.forall_mem_cons] at next
    exact ih (heeds_step heeds next.1) next.2

theorem Spares.step (spares : p.Spares number) (heeds : sink.Heeds) (next : move.Heeds) :
    (p.step sink move).Spares number := by
  refine ⟨valid_step spares.valid move, heeds_step spares.encoder next,
    Nat.lt_of_lt_of_le spares.made (p.length_calls_step sink move), fun c there => ?_⟩
  -- No new call takes the number, so only a section of the call itself matters.
  rcases p.call_step sink move there with before | ⟨_, _, -, last, -⟩ | ⟨b, _, _, before, taken⟩
  · exact spares.unrefused c before
  · exact absurd last (Nat.ne_of_lt spares.made)
  · exact taken.unrefused heeds spares.encoder (spares.valid number b before)
      (spares.unrefused b before)

theorem Spares.run (spares : p.Spares number) (heeds : sink.Heeds) {moves : List (Move ω)}
    (next : ∀ move ∈ moves, move.Heeds) : (p.run sink moves).Spares number := by
  induction moves generalizing p with
  | nil => exact spares
  | cons move rest ih =>
    rw [List.forall_mem_cons] at next
    exact ih (spares.step heeds next.1) next.2

theorem check_held (sink : Sink ω) (feed : Feed) (world : ω) (fresh : feed.load = {})
    (moves : List (Move ω)) {held : Upkeep.HeldFrame}
    (holds : ((start feed world).run sink moves).feed.upkeep.held = some held) :
    (Call.heldPixels held).check = .ok () := by
  have load : ((start feed world).run sink moves).feed.load = moves.foldl Load.move {} :=
    (load_run sink _ moves).trans (congrArg (moves.foldl Load.move) fresh)
  obtain ⟨_, _, pixels, _, -, rfl, cached, -⟩ :=
    Load.held_since ((congrArg Load.held load).symm.trans holds)
  exact Picture.Pixels.check_heldPixels (Load.verdict?_eq_cached_iff.mp cached).1

theorem spares_replay (valid : p.Valid) (heeds : p.feed.encoder.Heeds) (clock : Int)
    {held : Upkeep.HeldFrame} (passes : (Call.heldPixels held).check = .ok ()) :
    (p.step sink (.start clock (.intent (.replay held)))).Spares p.calls.length := by
  have entered : Call.intent clock (.replay held) =
      .encode ⟨Call.heldPixels held, clock, .replay⟩ := by
    simp only [Call.intent, passes]
  refine ⟨valid_step valid _, heeds_step heeds trivial, ?_, fun c there => ?_⟩
  · rw [step_start, List.length_append]
    exact Nat.lt_succ_self _
  · rw [step_start, List.getElem?_concat_length, Option.some.injEq] at there
    subst there
    simp only [Request.enter, entered, Call.Unrefused]

/-- The check of a frame is exact, and so is the word with its length, which the check goes by. An
encoder takes no slice of a frame out of range, whatever it was given before. However calls and
controls are interleaved on a new feed, no slice is out of range, and a frame that is held back in
the end, or replayed by a tick then, passes its check. If such a frame is replayed at any time
later, with anything done before and after that, then its call does not fail because a frame is
malformed, unless the encoder or the sink says so of frames that pass, which the encoder of pictures
and the sockets do not. -/
theorem run_slices (sink : Sink ω) (settings : Settings) (geometry : Screen.Geometry)
    (encoder : Picture.Encoder) (reserve : Nat) (now : Int) (world : ω) (moves : List (Move ω)) :
    (∀ frame : Picture.Pixels, frame.checkInWords = frame.check ∧
      (frame.check = .ok () ↔ 1 ≤ frame.width.toInt ∧ 1 ≤ frame.height.toInt ∧
        4 * frame.width.toInt * frame.height.toInt ≤ frame.data.length) ∧
      (frame.lengthWord.toNat : Int) =
        (if 1 ≤ frame.width.toInt ∧ 1 ≤ frame.height.toInt then
          4 * frame.width.toInt * frame.height.toInt else 0) ∧
      ∀ c : Picture.Jpeg.Counting, c.encode? frame = some (c.encode frame) ∧
        (c.encode frame).1 = Picture.Jpeg.encode frame) ∧
    Picture.Encoder.Heeds Picture.Jpeg.encode ∧
    (∀ (υ : Type) (host : Local.Host υ), host.Heeds → (Local.Socket.sink host).Heeds) ∧
    let p := start (.new settings geometry encoder reserve now) world
    p.run? sink moves = some (p.run sink moves) ∧
    ∀ held, (p.run sink moves).feed.upkeep.held = some held ∨
        (∃ clock, .replay held ∈ ((p.run sink moves).feed.tick clock).1) →
      (Call.heldPixels held).check = .ok () ∧
      ∀ between clock later, sink.Heeds → encoder.Heeds →
        (∀ move ∈ moves ++ between ++ later, move.Heeds) →
        let q := p.run sink (moves ++ between)
        ∀ failure, (q.run sink (.start clock (.intent (.replay held)) :: later)).calls[
          q.calls.length]? = some (.done (.error failure)) → failure.refusesFrame = false := by
  have valid := valid_start (.new settings geometry encoder reserve now) world
  refine ⟨fun frame => ⟨frame.checkInWords_eq, Picture.Pixels.check_iff_holds,
    frame.lengthWord_eq, fun c => ⟨c.encode?_eq frame, c.encode_eq_encode frame⟩⟩,
    Picture.Jpeg.heeds_encode, fun _ _ => heeds_socket, run?_of_valid valid moves, ?_⟩
  intro held due
  have holds : ((start (.new settings geometry encoder reserve now) world).run sink
      moves).feed.upkeep.held = some held := by
    rcases due with holds | ⟨clock, planned⟩
    · exact holds
    · exact Load.held_of_replay? (Upkeep.replay_mem_plan.mp planned)
  have passes := check_held sink _ world rfl moves holds
  refine ⟨passes, ?_⟩
  -- From its first section on, the call of the replay is spared by every move.
  intro between clock later sink_heeds encoder_heeds next q failure failed
  rw [List.forall_mem_append] at next
  have spares : (q.step sink (.start clock (.intent (.replay held)))).Spares q.calls.length :=
    spares_replay (valid_run valid _) (heeds_run encoder_heeds next.1) clock passes
  exact (spares.run sink_heeds next.2).unrefused _ failed

def unseen : Pool Record :=
  start (.new {} { resolution := .uniform ⟨1, 1⟩ } Picture.Jpeg.encode 0 0) { ready := false }

def longFrame : List (Move Record) :=
  [.control 0 (.beginLoad 0),
    .start 0 (.loadFrame
      { data := [1, 2, 3, 4, 5, 6], width := 1, height := 1, format := .bgra, timestamp := 10 }),
    .control 0 (.loadState .finished)]

def shortened : Upkeep.HeldFrame := ⟨1, 1, 10, [1, 2, 3, 4]⟩

theorem run_slices_of_long_frame :
    let p := unseen.run Record.sink longFrame
    let q := unseen.run Record.sink (longFrame ++ [.control 5 .tick])
    unseen.run? Record.sink longFrame = some p ∧ .replay shortened ∈ (p.feed.tick 5).1 ∧
      (Call.heldPixels shortened).check = .ok () ∧
      (q.run Record.sink [.start 6 (.intent (.replay shortened)), .advance 7 1, .advance 8 1,
        .advance 9 1]).calls[q.calls.length]? = some (.done (.error .noViewer)) ∧
      Failure.noViewer.refusesFrame = false := by
  obtain ⟨-, encoder_heeds, -, checked, kept⟩ := run_slices Record.sink {}
    { resolution := .uniform ⟨1, 1⟩ } Picture.Jpeg.encode 0 0 { ready := false } longFrame
  have planned : .replay shortened ∈ ((unseen.run Record.sink longFrame).feed.tick 5).1 := by
    decide
  have second : (unseen.run Record.sink (longFrame ++ [.control 5 .tick])).calls.length = 1 := rfl
  have failed : ((unseen.run Record.sink (longFrame ++ [.control 5 .tick])).run Record.sink
      [.start 6 (.intent (.replay shortened)), .advance 7 1, .advance 8 1,
        .advance 9 1]).calls[1]? = some (.done (.error .noViewer)) := rfl
  rw [← second] at failed
  obtain ⟨passes, spared⟩ := kept shortened (Or.inr ⟨5, planned⟩)
  refine ⟨checked, planned, passes, failed, ?_⟩
  refine spared [.control 5 .tick] 6 [.advance 7 1, .advance 8 1, .advance 9 1] heeds_record
    encoder_heeds ?_ .noViewer failed
  simp [longFrame, Move.Heeds]

end Pool

end Stream

end ScreenPreview
