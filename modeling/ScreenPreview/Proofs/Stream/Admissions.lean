import ScreenPreview.Proofs.Stream.Progress
import ScreenPreview.Proofs.Stream.Refused
import ScreenPreview.Proofs.Stream.Repeats
import ScreenPreview.Proofs.Stream.Spacing
import ScreenPreview.Proofs.Stream.Windows

/-!
Live frames in static mode.

Without a rate limit and a static card only the counting window holds frames back. It opens with a
change of content, or with the first look at it if nothing has changed yet, that of a tick or of a
frame. If encoder and sink never fail, a frame is sent exactly if it comes before the window has run
out, whatever else is done to the feed in the meantime (`run_sent_iff_in_window`). No place is kept
for the first frame: one that comes too late is held back like any other (`first_frame_suppressed`).
-/
namespace ScreenPreview.Stream

open Stillness (opened?)

def Control.Plain : Control → Prop
  | .mode _ | .card _ | .dropInterval _ | .partsOnly _ | .encoder _ => False
  | _ => True

def Move.Plain {ω : Type} (within : ω → Prop) : Move ω → Prop
  | .start _ request => request ≠ .fit
  | .advance _ _ => True
  | .control _ change => change.Plain
  | .world w => within w

def Move.looks {ω : Type} : Move ω → List Stillness.Operation
  | .start now (.frame pixels) =>
    if pixels.check = .ok () then [.refresh now, .judge pixels.change] else []
  | .control now .tick => [.refresh now]
  | .control now .contentChanged => [.contentChanged now]
  | _ => []

/-- Nothing but the counting window holds frames back, and they are all encoded in one way. -/
structure Feed.Unhindered (encoder : Picture.Encoder) (f : Feed) : Prop where
  encoder : f.encoder = encoder
  spacing : f.rateLimit.spacing = 0
  card : f.stillness.card = false

variable {ω : Type} {sink : Sink ω} {within : ω → Prop} {encoder : Picture.Encoder}
  {n room : Nat} {f g : Feed} {c d : Call} {events : List Event} {move : Move ω}
  {pixels : Picture.Pixels}

theorem Move.Plain.keeps (plain : move.Plain within) : move.Keeps within := by
  cases move with
  | control now change =>
    rintro rfl
    exact plain
  | _ => exact plain

/-! ### The window -/

theorem mode?_of_mem_looks {o : Stillness.Operation} (member : o ∈ move.looks) :
    o.mode? = none := by
  unfold Move.looks at member
  split at member
  · split at member <;> simp at member
    rcases member with rfl | rfl <;> rfl
  · rw [List.mem_singleton.mp member]
    rfl
  · rw [List.mem_singleton.mp member]
    rfl
  · cases member

theorem card_run_looks (s : Stillness) (move : Move ω) : (s.run move.looks).card = s.card := by
  have refreshed (now : Int) : (s.refresh now).card = s.card := by
    have looked := s.looked_refresh now
    generalize s.refresh now = t at looked ⊢
    cases looked <;> rfl
  unfold Move.looks
  split
  · split
    · rename_i now pixels _
      obtain ⟨seeded, same⟩ := (s.refresh now).judge_keeps pixels.change
      exact (congrArg Stillness.card same).trans (refreshed now)
    · rfl
  · exact refreshed _
  · rfl
  · rfl

namespace Request

theorem stillness_enter_looks (request : Request) (now : Int) (card : f.stillness.card = false) :
    (request.enter now f).2.stillness =
      f.stillness.run (Move.looks (.start now request : Move ω)) := by
  cases request with
  | frame pixels =>
    simp only [enter, Call.frame, Move.looks]
    cases pixels.check with
    | error failure => rfl
    | ok _ =>
      have seen : f.stillness.seen now pixels.change =
          f.stillness.run [.refresh now, .judge pixels.change] := by
        simp [Stillness.seen, Stillness.cardHolds, card, Stillness.run, Stillness.perform]
      rcases f.admitLive_cases now pixels.change with same | same | same <;> rw [same] <;>
        exact seen
  | loadFrame pixels =>
    obtain ⟨upkeep, same⟩ := f.admitLoad_feed pixels
    simp only [enter, Call.loadFrame]
    split
    · rfl
    · have kept : (f.admitLoad pixels).2.stillness = f.stillness := by rw [same]
      generalize f.admitLoad pixels = admission at kept ⊢
      obtain ⟨verdict, g⟩ := admission
      cases verdict <;> exact kept
  | intent due => rfl
  | fit => rfl

end Request

namespace Pool

variable {p : Pool ω}

theorem step_control_of_plain (sink : Sink ω) (p : Pool ω) (now : Int) {change : Control}
    (plain : change.Plain) :
    p.step sink (.control now change) = { p with feed := change.apply now p.feed } := by
  have free : p.free change.needs = true := by
    cases change <;> first | exact plain.elim | simp [Control.needs, Pool.free]
  simp [step, free]

theorem looks_step (sink : Sink ω) (card : p.feed.stillness.card = false)
    (plain : move.Plain within) :
    (p.step sink move).feed.stillness = p.feed.stillness.run move.looks := by
  cases move with
  | start now request => exact request.stillness_enter_looks now card
  | advance now number =>
    rcases p.step_advance sink now number with same | ⟨c, d, events, feed, world, -, -, taken, step⟩
    · rw [same]
      rfl
    · rw [step]
      exact taken.stillness_eq
  | control now change =>
    rw [step_control_of_plain sink p now plain]
    cases change <;> first | rfl | exact plain.elim
  | world world => rfl

theorem unhindered_step (sink : Sink ω) (unhindered : p.feed.Unhindered encoder)
    (plain : move.Plain within) : (p.step sink move).feed.Unhindered encoder := by
  refine ⟨?_, ?_, ?_⟩
  · rw [← unhindered.encoder]
    cases move with
    | start now request =>
      obtain ⟨_, _, _, same⟩ := request.enter_feed now p.feed
      rw [step_start, same]
    | advance now number =>
      rcases p.step_advance sink now number with same | ⟨_, _, _, _, _, -, -, taken, step⟩
      · rw [same]
      · rw [step]
        exact taken.encoder_eq
    | control now change =>
      rw [step_control_of_plain sink p now plain]
      cases change <;> first | rfl | exact plain.elim
    | world world => rfl
  · refine spacing_step unhindered.spacing ?_
    rintro now spacing rfl
    exact plain
  · rw [looks_step sink unhindered.card plain, card_run_looks, unhindered.card]

end Pool

namespace Feed

theorem frame_of_unhindered (unhindered : f.Unhindered encoder) (now : Int)
    (valid : pixels.check = .ok ()) :
    (Call.frame f now pixels).1 =
      if ((f.stillness.refresh now).judge pixels.change).1 then
        .encode ⟨pixels, now, .live f.rateLimit.lastAccepted⟩
      else .done (.ok .suppressed) := by
  have uncovered : f.stillness.cardHolds pixels.change = false := by
    rw [Stillness.cardHolds, unhindered.card, Bool.false_and]
  have free : f.rateLimit.tooSoon now = false :=
    f.rateLimit.tooSoon_of_spacing_zero now unhindered.spacing
  simp only [Call.frame, valid, admitLive, uncovered, RateLimit.reserve, free]
  cases ((f.stillness.refresh now).judge pixels.change).1 <;> rfl

end Feed

/-! ### The call of a live frame -/

def Job.IsLive (pixels : Picture.Pixels) (job : Job) : Prop :=
  job.frame = pixels ∧ ∃ previous, job.route = .live previous

/-- What the call of a live frame that was let in is about to do, or that it has sent the frame. -/
def Underway (encoder : Picture.Encoder) (pixels : Picture.Pixels) (f : Feed) : Call → Prop
  | .encode job => job.IsLive pixels
  | .publish job _ => job.IsLive pixels ∧ encoder.picture? pixels = some f.output
  | .write (.picture job _) => job.IsLive pixels
  | .record (.picture job _) _ => job.IsLive pixels
  | .done result => ∃ bytes quality, result = .ok (.sent bytes quality)
  | _ => False

theorem Underway.frame (underway : Underway encoder pixels f c)
    (output : .encoder ∈ c.holds → g.output = f.output) : Underway encoder pixels g c := by
  cases c with
  | publish job quality =>
    rw [Underway, output (by simp [Call.holds])]
    exact underway
  | write purpose => cases purpose <;> exact underway
  | record purpose bytes => cases purpose <;> exact underway
  | _ => exact underway

theorem Underway.section (serves : sink.Serves within) (now : Int)
    (fitted : f.Fitted encoder n room)
    (made : ∃ picture, encoder.picture? pixels = some picture ∧ picture.length ≤ room)
    (there : ∀ purpose, c = .write purpose → ∃ wire, f.outlet.wire? = .ok wire)
    (underway : Underway encoder pixels f c) {w : ω} (here : within w) :
    Underway encoder pixels (c.step sink.watched now f (w, [])).2.1
      (c.step sink.watched now f (w, [])).1 := by
  obtain ⟨picture, made, fits⟩ := made
  cases c with
  | encode job =>
    obtain ⟨rfl, previous, route⟩ := underway
    rcases Feed.encode_cases fitted job.frame with ⟨_, _, -, none⟩ | ⟨quality, _, encoded, same⟩
    · rw [made] at none
      cases none
    · simp only [Call.step, encoded, Call.encoded, route]
      exact ⟨⟨rfl, previous, route⟩, same⟩
  | publish job quality =>
    obtain ⟨live, same⟩ := underway
    have output : picture = f.output := Option.some.inj (made.symm.trans same)
    have ready : (f.publish job.admitted).Fitted encoder n room := fitted.of_eq rfl rfl
    obtain ⟨outlet, packs, -, -⟩ :=
      Feed.pack_of_fits ready ((f.publish job.admitted).header job.flags) (output ▸ fits)
    have packs : (f.publish job.admitted).pack true ((f.publish job.admitted).header job.flags)
        (f.publish job.admitted).output = .ok { f.publish job.admitted with outlet } := packs
    simp only [Call.step, Sink.watched, serves.ready w here, packs]
    exact live
  | write purpose =>
    cases purpose with
    | picture job quality =>
      obtain ⟨wire, there⟩ := there _ rfl
      obtain ⟨count, taken⟩ := serves.takes wire w here
      simp only [Call.step, Feed.write, Outlet.deliver, there, Sink.watched, taken]
      exact underway
    | _ => exact underway.elim
  | record purpose bytes =>
    cases purpose with
    | picture job quality =>
      obtain ⟨-, previous, route⟩ := underway
      exact ⟨bytes, quality, by simp only [Call.outcome, route]⟩
    | _ => exact underway.elim
  | done result => exact underway
  | _ => exact underway.elim

namespace Pool

variable {p : Pool ω}

structure Smooth (sink : Sink ω) (within : ω → Prop) (encoder : Picture.Encoder)
    (reserve room : Nat) (p : Pool ω) : Prop where
  sound : p.Sound sink reserve
  served : p.Served within reserve room
  unhindered : p.feed.Unhindered encoder

theorem Smooth.step (serves : sink.Serves within) (smooth : p.Smooth sink within encoder n room)
    (plain : move.Plain within) : (p.step sink move).Smooth sink within encoder n room :=
  ⟨sound_step smooth.sound move, served_step serves smooth.sound smooth.served plain.keeps,
    unhindered_step sink smooth.unhindered plain⟩

def Sends (encoder : Picture.Encoder) (pixels : Picture.Pixels) (number : Nat) (p : Pool ω) :
    Prop :=
  ∃ c, p.calls[number]? = some c ∧ Underway encoder pixels p.feed c

variable {number : Nat}

theorem Sends.advance (serves : sink.Serves within) (smooth : p.Smooth sink within encoder n room)
    (made : ∃ picture, encoder.picture? pixels = some picture ∧ picture.length ≤ room)
    (sends : p.Sends encoder pixels number) (now : Int) (other : Nat) :
    (p.step sink (.advance now other)).Sends encoder pixels number := by
  obtain ⟨c, there, underway⟩ := sends
  by_cases own : other = number
  · subst own
    cases free : p.free c.needs with
    | false => exact ⟨c, by simp [Pool.step, there, free], by simpa [Pool.step, there, free]⟩
    | true =>
      have fitted : p.feed.Fitted encoder n room := by
        have roomy := smooth.served.roomy
        rwa [Feed.Roomy, smooth.unhindered.encoder] at roomy
      have waits : ∀ purpose, c = .write purpose → ∃ wire, p.feed.outlet.wire? = .ok wire := by
        rintro purpose rfl
        obtain ⟨_, -, -, -, _, _, ⟨_, -, wire⟩, -⟩ := smooth.sound.along _ _ there
        exact ⟨_, wire⟩
      have next := underway.section serves now fitted made waits smooth.served.here
      simp only [Pool.step, there, free, if_true]
      exact ⟨_, List.getElem?_set_self (List.getElem?_eq_some_iff.mp there).1, next⟩
  · rcases p.step_advance sink now other with same | ⟨d, _, _, _, _, made, free, taken, step⟩
    · rw [same]
      exact ⟨c, there, underway⟩
    · rw [step]
      refine ⟨c, by rwa [List.getElem?_set_ne own], underway.frame fun held => ?_⟩
      exact taken.output_eq (smooth.sound.exclusive.apart made free there (Ne.symm own) held)

theorem Sends.step (serves : sink.Serves within) (smooth : p.Smooth sink within encoder n room)
    (made : ∃ picture, encoder.picture? pixels = some picture ∧ picture.length ≤ room)
    (sends : p.Sends encoder pixels number) (move : Move ω) :
    (p.step sink move).Sends encoder pixels number := by
  cases move with
  | start now request =>
    obtain ⟨c, there, underway⟩ := sends
    have inside := (List.getElem?_eq_some_iff.mp there).1
    rw [step_start]
    refine ⟨c, by rwa [List.getElem?_append_left inside], underway.frame fun _ => ?_⟩
    exact (request.enter_keeps now p.feed).2.1
  | advance now other => exact sends.advance serves smooth made now other
  | control now change =>
    obtain ⟨c, there, underway⟩ := sends
    rcases p.step_control sink now change with same | ⟨-, step⟩
    · rw [same]
      exact ⟨c, there, underway⟩
    · rw [step]
      exact ⟨c, there, underway.frame fun _ => (Control.apply_keeps now p.feed change).1⟩
  | world world => exact sends

theorem Sends.run (serves : sink.Serves within) (smooth : p.Smooth sink within encoder n room)
    (made : ∃ picture, encoder.picture? pixels = some picture ∧ picture.length ≤ room)
    (sends : p.Sends encoder pixels number) {moves : List (Move ω)}
    (plain : ∀ move ∈ moves, move.Plain within) :
    (p.run sink moves).Sends encoder pixels number := by
  induction moves generalizing p with
  | nil => exact sends
  | cons move rest ih =>
    rw [List.forall_mem_cons] at plain
    exact ih (smooth.step serves plain.1) (sends.step serves smooth made move) plain.2

/-! ### Runs -/

theorem looks_run {moves : List (Move ω)} (unhindered : p.feed.Unhindered encoder)
    (plain : ∀ move ∈ moves, move.Plain within) :
    (p.run sink moves).feed.stillness = p.feed.stillness.run (moves.flatMap Move.looks) := by
  induction moves generalizing p with
  | nil => rfl
  | cons move rest ih =>
    rw [List.forall_mem_cons] at plain
    have later := ih (unhindered_step sink unhindered plain.1) plain.2
    rw [looks_step sink unhindered.card plain.1, ← Stillness.run_append] at later
    exact later

theorem smooth_new (settings : Settings) (geometry : Screen.Geometry) (encoder : Picture.Encoder)
    (reserve : Nat) (began : Int) {world : ω} (unlimited : settings.dropInterval = 0)
    (here : within world) :
    (start (.new settings geometry encoder reserve began) world).Smooth sink within encoder reserve
      (Feed.payloadRoom settings geometry.resolution) :=
  ⟨sound_new settings geometry encoder reserve began world,
    served_new settings geometry encoder reserve began here, ⟨rfl, congrArg millis unlimited, rfl⟩⟩

theorem Smooth.run (serves : sink.Serves within) (smooth : p.Smooth sink within encoder n room)
    {moves : List (Move ω)} (plain : ∀ move ∈ moves, move.Plain within) :
    (p.run sink moves).Smooth sink within encoder n room := by
  induction moves generalizing p with
  | nil => exact smooth
  | cons move rest ih =>
    rw [List.forall_mem_cons] at plain
    exact ih (smooth.step serves plain.1) plain.2

theorem Sends.finishes (serves : sink.Serves within)
    (smooth : p.Smooth sink within encoder n room)
    (made : ∃ picture, encoder.picture? pixels = some picture ∧ picture.length ≤ room)
    (sends : p.Sends encoder pixels number) (now : Int) :
    ∃ numbers : List Nat, ∃ bytes quality,
      (p.run sink (numbers.map (.advance now ·))).calls[number]? =
        some (.done (.ok (.sent bytes quality))) := by
  obtain ⟨numbers, finished⟩ := exists_run_allDone sink p now
  have plain : ∀ move ∈ numbers.map (.advance now ·), Move.Plain within move := by
    simp [Move.Plain]
  obtain ⟨c, there, underway⟩ := sends.run serves smooth made plain
  obtain ⟨result, rfl⟩ := allDone_iff.mp finished c (List.mem_of_getElem? there)
  obtain ⟨bytes, quality, rfl⟩ := underway
  exact ⟨numbers, bytes, quality, there⟩

theorem Sends.result_eq (sends : p.Sends encoder pixels number) {result : Except Failure Outcome}
    (done : p.calls[number]? = some (.done result)) :
    ∃ bytes quality, result = .ok (.sent bytes quality) := by
  obtain ⟨c, there, underway⟩ := sends
  obtain rfl := Option.some.inj (done.symm.trans there)
  exact underway

theorem window_passes_iff {settings : Settings} (static : settings.mode = .static)
    {past : List (Move ω)} {stillness : Stillness} {now : Int}
    (same : stillness = Stillness.run { mode := settings.mode, window := settings.staticWindow }
      (past.flatMap Move.looks))
    (ordered : (Stillness.clocks (past.flatMap Move.looks ++ [.refresh now])).Pairwise (· ≤ ·)) :
    ∃ since, opened? (past.flatMap Move.looks ++ [.refresh now]) = some since ∧ ∀ change,
      ((stillness.refresh now).judge change).1 = true ↔ now - since < settings.staticWindow := by
  rw [Stillness.clocks_concat, List.pairwise_append] at ordered
  have kept := Stillness.kept_run settings.mode settings.staticWindow ordered.1
  have either := Stillness.settled_run
    (s := { mode := settings.mode, window := settings.staticWindow }) rfl (past.flatMap Move.looks)
  rw [← same] at kept either
  obtain ⟨since, opened, passes⟩ := kept.judge_look_iff either fun t member =>
    ordered.2.2 t member now List.mem_cons_self
  have unchosen : (past.flatMap Move.looks).filterMap Stillness.Operation.mode? = [] := by
    rw [List.filterMap_eq_nil_iff]
    intro o member
    obtain ⟨move, -, member⟩ := List.mem_flatMap.mp member
    exact mode?_of_mem_looks member
  refine ⟨since, opened, fun change => ?_⟩
  rw [passes, Stillness.lastMode, unchosen]
  simp [static]

/-- However calls are interleaved on a new feed in static mode, without a limit and a static card,
where the instants of ticks, frames and changes of content never go back, the encoder makes a
picture of every frame and the sink takes it: a frame is sent if it comes while the counting window
lasts, and suppressed at once otherwise. The window opened with the last change of content, or with
the first tick or frame if nothing has changed yet. -/
theorem run_sent_iff_in_window (serves : sink.Serves within) {settings : Settings}
    (static : settings.mode = .static) (unlimited : settings.dropInterval = 0)
    (geometry : Screen.Geometry)
    (makes : ∀ pixels, pixels.check = .ok () → ∃ picture, encoder.picture? pixels = some picture ∧
      picture.length ≤ Feed.payloadRoom settings geometry.resolution)
    (reserve : Nat) (began : Int) {world : ω} (here : within world) {past later : List (Move ω)}
    {now : Int} (valid : pixels.check = .ok ())
    (plain : ∀ move ∈ past ++ .start now (.frame pixels) :: later, move.Plain within)
    (ordered : (Stillness.clocks (past.flatMap Move.looks ++ [.refresh now])).Pairwise (· ≤ ·)) :
    let new := start (.new settings geometry encoder reserve began) world
    let number := (new.run sink past).calls.length
    let p := new.run sink (past ++ .start now (.frame pixels) :: later)
    ∃ since, opened? (past.flatMap Move.looks ++ [.refresh now]) = some since ∧
      (past.flatMap Move.looks = [] → since = now) ∧
      (settings.staticWindow ≤ now - since →
        p.calls[number]? = some (.done (.ok .suppressed))) ∧
      (now - since < settings.staticWindow →
        (∀ result, p.calls[number]? = some (.done result) →
          ∃ bytes quality, result = .ok (.sent bytes quality)) ∧
        ∀ clock, ∃ numbers : List Nat, ∃ bytes quality,
          (p.run sink (numbers.map (.advance clock ·))).calls[number]? =
            some (.done (.ok (.sent bytes quality)))) := by
  intro new number p
  obtain ⟨plain_past, plain_rest⟩ := List.forall_mem_append.mp plain
  obtain ⟨plain_frame, plain_later⟩ := List.forall_mem_cons.mp plain_rest
  have begun : new.Smooth sink within encoder reserve
      (Feed.payloadRoom settings geometry.resolution) :=
    smooth_new settings geometry encoder reserve began unlimited here
  have smooth := begun.run serves plain_past
  obtain ⟨since, opened, passes⟩ := window_passes_iff static
    (looks_run begun.unhindered plain_past) ordered
  have whole : p = ((new.run sink past).step sink (.start now (.frame pixels))).run sink later :=
    run_append sink new past _
  have entered : ((new.run sink past).step sink (.start now (.frame pixels))).calls[number]? =
      some (Call.frame (new.run sink past).feed now pixels).1 := List.getElem?_concat_length
  rw [Feed.frame_of_unhindered smooth.unhindered now valid] at entered
  refine ⟨since, opened, ?_, ?_, ?_⟩
  · intro unlooked
    rw [unlooked] at opened
    exact (Option.some.inj opened).symm
  · intro late
    rw [if_neg fun passed => absurd ((passes _).mp passed) (Int.not_lt.mpr late)] at entered
    rw [whole]
    exact done_run sink entered later
  · intro inside
    rw [if_pos ((passes _).mpr inside)] at entered
    have sends : p.Sends encoder pixels number := by
      rw [whole]
      exact Sends.run serves (smooth.step serves plain_frame) (makes pixels valid)
        ⟨_, entered, rfl, _, rfl⟩ plain_later
    exact ⟨fun result => sends.result_eq,
      sends.finishes serves (begun.run serves plain) (makes pixels valid)⟩

def hundredWindow : Settings := { mode := .static, staticWindow := millis 100, maxPayload := 64 }

def still : Pool Record :=
  start (.new hundredWindow { resolution := .uniform ⟨1, 1⟩ } (fun _ => .ok (90, [1])) 0 0) {}

def changed : List (Move Record) :=
  [.control 0 .tick, .start (millis 100) (.frame (pixel 1)), .control (millis 100) .contentChanged]

theorem run_sent_iff_in_window_behind_change :
    (still.run Record.sink (changed ++ [.start (millis 200) (.frame (pixel 2))])).calls[1]? =
        some (.done (.ok .suppressed)) ∧
      ∃ numbers : List Nat, ∃ bytes quality,
        ((still.run Record.sink (changed ++ [.start (millis 199) (.frame (pixel 2))])).run
            Record.sink (numbers.map (.advance (millis 199) ·))).calls[1]? =
          some (.done (.ok (.sent bytes quality))) := by
  have makes : ∀ pixels : Picture.Pixels, pixels.check = .ok () → ∃ picture,
      Picture.Encoder.picture? (fun _ => .ok (90, [1])) pixels = some picture ∧
        picture.length ≤ Feed.payloadRoom hundredWindow (.uniform ⟨1, 1⟩) :=
    fun _ _ => ⟨[1], rfl, by decide⟩
  have on : ({} : Record).ready = true ∧ ({} : Record).failures = 0 := ⟨rfl, rfl⟩
  have plain (now : Int) : ∀ move ∈ changed ++ [.start now (.frame (pixel 2))],
      move.Plain fun r : Record => r.ready = true ∧ r.failures = 0 := by
    simp [changed, Move.Plain, Control.Plain]
  obtain ⟨_, ⟨⟩, -, late, -⟩ := run_sent_iff_in_window Record.serves rfl rfl
    { resolution := .uniform ⟨1, 1⟩ } makes 0 0 on (by decide) (plain (millis 200)) (by decide)
  obtain ⟨_, ⟨⟩, -, -, inside⟩ := run_sent_iff_in_window Record.serves rfl rfl
    { resolution := .uniform ⟨1, 1⟩ } makes 0 0 on (by decide) (plain (millis 199)) (by decide)
  exact ⟨late (by decide), (inside (by decide)).2 (millis 199)⟩

/-- The first frame of all is suppressed, and so is the first one behind the change of content. -/
theorem first_frame_suppressed :
    let moves := changed ++ [.start (millis 200) (.frame (pixel 2))]
    Ordered 0 moves ∧ (pixel 1).check = .ok () ∧ (pixel 2).check = .ok () ∧
      (still.run Record.sink moves).calls.map Call.result? =
        [some (.ok .suppressed), some (.ok .suppressed)] := by
  decide +kernel

end Pool

end ScreenPreview.Stream
