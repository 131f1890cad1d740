import ScreenPreview.Proofs.Stream.Freshness
import ScreenPreview.Proofs.Stream.Idle
import ScreenPreview.Proofs.Stream.Silences

/-!
Heartbeats in the middle of a document load.

What the moves of a pool do to the upkeep is a run of its operations (`upkeep_run`), and of these
only a picture that is published ends a silence. So whether a tick asks for a heartbeat hangs on the
pictures and heartbeats so far, and of a load only on the stamp of its last frame
(`run_heartbeat_iff`). A frame that is held back is no picture: a load is interrupted although its
frames keep coming (`heartbeat_behind_cached`).
-/
namespace ScreenPreview.Stream

namespace Upkeep

theorem heartbeat_mem_plan {u : Upkeep} {now : Int} {hasPicture : Bool} :
    .heartbeat ∈ (u.plan now hasPicture).1 ↔ u.idle = false ∧ ¬ u.Alive now ∧ u.Due now := by
  cases u.plan_decision now hasPicture with
  | lasts inside none => simp [inside, none]
  | spares _ alive none => simp [alive, none]
  | waits _ _ early none => simp [early, none]
  | asks outside silent due last =>
    obtain ⟨others, asked, -⟩ := last
    simp [asked, outside, silent, due]

/-- The last picture is not long ago; or there was none, and now is the first time that the grace
time is seen to be reached. -/
def Journal.Alive (timing : Timing) (began : Int) (j : Journal) (now : Int) : Prop :=
  match j.rendered? with
  | some last => counted (elapsed last now) < timing.renderCeiling
  | none => j.graceSpent timing began = false ∧ timing.startupGrace ≤ counted (elapsed began now)

theorem Diary.Faithful.alive_iff {timing : Timing} {began now : Int} {d : Diary}
    (faithful : d.Faithful timing began) (outside : d.upkeep.idle = false) :
    d.upkeep.Alive now ↔ d.journal.Alive timing began now := by
  unfold Upkeep.Alive Journal.Alive
  rw [faithful.rendered, faithful.settings.1, faithful.settings.2]
  cases never : d.journal.rendered? with
  | some last => rfl
  | none =>
    simp only
    rw [faithful.grace outside never]

def Operation.frameStamp? : Operation → Option Int
  | frameStamp stamp => some stamp
  | _ => none

def Journal.frameStamp (j : Journal) : Int := (j.findSome? (·.operation.frameStamp?)).getD 0

theorem frameStamp_plan (u : Upkeep) (now : Int) (hasPicture : Bool) :
    (u.plan now hasPicture).2.frameStamp = u.frameStamp := by
  have replay : u.planReplay.2.frameStamp = u.frameStamp := by
    unfold planReplay
    split <;> rfl
  obtain ⟨_, _, _, _, planned⟩ := u.planReplay.2.planHeartbeat_eq now
  exact (congrArg frameStamp planned).trans replay

theorem Operation.frameStamp_perform (operation : Operation) (now : Int) (u : Upkeep) :
    (operation.perform now u).2.frameStamp = operation.frameStamp?.getD u.frameStamp := by
  cases operation with
  | tick hasPicture => exact u.frameStamp_plan now hasPicture
  | flushEvent stamp =>
    simp only [perform, Upkeep.flushEvent]
    split <;> rfl
  | _ => rfl

theorem Diary.frameStamp_run {d : Diary} (turns : List (Int × Operation))
    (same : d.upkeep.frameStamp = d.journal.frameStamp) :
    (d.run turns).upkeep.frameStamp = (d.run turns).journal.frameStamp := by
  induction turns generalizing d with
  | nil => exact same
  | cons turn rest ih =>
    refine ih ?_
    rw [step, Operation.frameStamp_perform, same, Journal.frameStamp, Journal.frameStamp,
      List.findSome?_cons]
    cases turn.2.frameStamp? <;> rfl

end Upkeep

open Upkeep

variable {ω : Type}

/-! ### What the moves of a pool do to the upkeep -/

def Call.turns (now : Int) : Call → List (Int × Operation)
  | publish job _ => [(job.admitted, .rendered)]
  | record (.picture _ _) _ => [(now, .sent)]
  | record .resend _ => [(now, .sent)]
  | _ => []

def Control.turns (now : Int) (f : Feed) : Control → List (Int × Operation)
  | tick => [(now, .tick f.lastPicture.isSome)]
  | beginLoad stamp => [(now, .loadStamp stamp), (now, .loadState .loading)]
  | loadState reached => [(now, .loadState reached)]
  | flushEvent stamp => [(now, .flushEvent stamp)]
  | _ => []

def Request.turns (now : Int) (f : Feed) : Request → List (Int × Operation)
  | loadFrame pixels =>
    match f.load.verdict? pixels with
    | some .admitted => [(now, .frameStamp pixels.timestamp)]
    | some .cached => [(now, .frameStamp pixels.timestamp), (now, .hold pixels.toHeld)]
    | _ => []
  | _ => []

namespace Pool

def turns (p : Pool ω) : Move ω → List (Int × Operation)
  | .start now request => request.turns now p.feed
  | .advance now number =>
    match p.calls[number]? with
    | some c => if p.free c.needs then c.turns now else []
    | none => []
  | .control now change => change.turns now p.feed
  | .world _ => []

def turnsAlong (sink : Sink ω) (p : Pool ω) : List (Move ω) → List (Int × Operation)
  | [] => []
  | move :: rest => p.turns move ++ turnsAlong sink (p.step sink move) rest

end Pool

variable {sink : Sink ω} {d : Diary} {f : Feed} {p : Pool ω}

theorem Call.upkeep_packed {g : Feed} {ready : Bool} {header : Wire.Header} {payload : Bytes}
    {purpose : Purpose} :
    (packed purpose g (g.pack ready header payload)).2.upkeep = g.upkeep := by
  unfold packed
  split
  · obtain ⟨_, _, -, rfl⟩ := Feed.pack_ok ‹_›
    rfl
  · rfl

theorem Feed.upkeep_admitLoad (f : Feed) (pixels : Picture.Pixels) :
    (f.admitLoad pixels).2.upkeep =
      match (f.admitLoad pixels).1 with
      | .admitted => { f.upkeep with frameStamp := pixels.timestamp }
      | .cached => { f.upkeep with frameStamp := pixels.timestamp, held := some pixels.toHeld }
      | .stale => f.upkeep := by
  unfold admitLoad
  split
  · rfl
  · simp only
    split <;> rfl

theorem Call.upkeep_step (c : Call) (now : Int) (w : ω) (same : d.upkeep = f.upkeep) :
    (d.run (c.turns now)).upkeep = (c.step sink now f w).2.1.upkeep := by
  cases c with
  | encode job =>
    simp only [step, Feed.encode]
    split <;> exact same
  | publish job quality =>
    simp only [step, upkeep_packed]
    exact congrArg (·.rendered job.admitted) same
  | repack =>
    simp only [step, Feed.packLast]
    cases f.lastPicture with
    | none => exact same
    | some picture => exact same.trans upkeep_packed.symm
  | packHeartbeat => exact same.trans upkeep_packed.symm
  | write purpose =>
    have wrote : (f.write sink w).2.1.upkeep = f.upkeep := rfl
    simp only [step]
    split <;> simp_all [turns, Diary.run]
  | record purpose bytes =>
    cases purpose with
    | heartbeat => exact same
    | _ => exact congrArg (·.sent now) same
  | _ => exact same

theorem Request.upkeep_enter (request : Request) (now : Int) (same : d.upkeep = f.upkeep) :
    (d.run (request.turns now f)).upkeep = (request.enter now f).2.upkeep := by
  cases request with
  | frame pixels =>
    have kept := f.upkeep_admitLive now pixels.change
    simp only [enter, Call.frame]
    split
    · exact same
    · split <;> simp_all [turns, Diary.run]
  | loadFrame pixels =>
    obtain ⟨u, j⟩ := d
    cases same
    simp only [enter, Call.loadFrame, turns]
    cases valid : pixels.check with
    | error failure =>
      simp only [Load.verdict?, valid]
      rfl
    | ok _ =>
      have admitted := f.upkeep_admitLoad pixels
      rw [(f.admitLoad_eq valid).1]
      rcases answer : f.admitLoad pixels with ⟨verdict, g⟩
      rw [answer] at admitted
      cases verdict <;> exact admitted.symm
  | intent due => exact same
  | fit => exact same

theorem Control.upkeep_apply (change : Control) (now : Int) (same : d.upkeep = f.upkeep) :
    (d.run (change.turns now f)).upkeep = (change.apply now f).upkeep := by
  obtain ⟨u, j⟩ := d
  cases same
  cases change <;> rfl

namespace Pool

theorem upkeep_step (sink : Sink ω) (move : Move ω) (same : d.upkeep = p.feed.upkeep) :
    (d.run (p.turns move)).upkeep = (p.step sink move).feed.upkeep := by
  cases move with
  | start now request => exact request.upkeep_enter now same
  | advance now number =>
    simp only [turns, step]
    split
    · rename_i c made
      simp only [made]
      split
      · exact c.upkeep_step now _ same
      · exact same
    · simp only [*]
      exact same
  | control now change =>
    cases needs : change.needs with
    | none =>
      have free : p.free change.needs = true := by simp [needs, free]
      simp only [step, free, if_true]
      exact change.upkeep_apply now same
    | some lock =>
      -- A control that waits for a lock leaves the upkeep alone, whether it is put off or not.
      have alone : change.turns now p.feed = [] := by
        cases change <;> first | rfl | cases needs
      rcases p.step_control sink now change with put_off | ⟨-, applied⟩
      · rw [put_off, turns, alone]
        exact same
      · rw [applied]
        exact change.upkeep_apply now same
  | world world => exact same

theorem upkeep_run (sink : Sink ω) (moves : List (Move ω)) (same : d.upkeep = p.feed.upkeep) :
    (d.run (p.turnsAlong sink moves)).upkeep = (p.run sink moves).feed.upkeep := by
  induction moves generalizing p d with
  | nil => exact same
  | cons move rest ih =>
    rw [turnsAlong, Diary.run, List.foldl_append]
    exact ih (upkeep_step sink move same)

/-- However the calls on a new feed are interleaved: a tick asks for a heartbeat exactly if none was
asked for since the last picture that was published, the renderer does not count as alive, and
either that picture is too long ago, in whole milliseconds, or the last heartbeat is and no load
frame is newer than it. -/
theorem run_heartbeat_iff (sink : Sink ω) (settings : Settings) (geometry : Screen.Geometry)
    (encoder : Picture.Encoder) (reserve : Nat) (began : Int) (world : ω) (moves : List (Move ω))
    (clock : Int) :
    let timing := settings.timing
    let p := start (.new settings geometry encoder reserve began) world
    let j := ((Diary.start timing began).run (p.turnsAlong sink moves)).journal
    let u := (p.run sink moves).feed.upkeep
    .heartbeat ∈ ((p.run sink moves).feed.tick clock).1 ↔
      j.sinceRendered.heartbeats = 0 ∧ ¬ j.Alive timing began clock ∧
        (timing.idleThreshold < j.silence began clock ∨
          j.frameStamp ≤ u.flushStamp ∧ timing.idleThreshold < elapsed u.flushTime clock) := by
  intro timing p j u
  have faithful := (Diary.faithful_start timing began).run (p.turnsAlong sink moves)
  have same : ((Diary.start timing began).run (p.turnsAlong sink moves)).upkeep = u :=
    upkeep_run sink moves rfl
  have idle : u.idle = false ↔ j.sinceRendered.heartbeats = 0 := by
    rw [faithful.heartbeats, same]
    cases u.idle <;> simp
  have due : u.Due clock ↔ timing.idleThreshold < j.silence began clock ∨
      j.frameStamp ≤ u.flushStamp ∧ timing.idleThreshold < elapsed u.flushTime clock := by
    rw [faithful.silence, ← Diary.frameStamp_run _ rfl, same, Upkeep.Due, ← same,
      faithful.settings.1]
  have planned : .heartbeat ∈ ((p.run sink moves).feed.tick clock).1 ↔
      u.idle = false ∧ ¬ u.Alive clock ∧ u.Due clock := heartbeat_mem_plan
  rw [planned, due, ← idle]
  refine and_congr_right fun outside => and_congr_left fun _ => not_congr ?_
  rw [← same] at outside ⊢
  exact faithful.alive_iff outside

end Pool

namespace Sequence

open Pool (madeAt)

def slowLoad : List (Move Record) :=
  [.start 0 (.frame (madeAt 0)), .advance 0 0, .advance 0 0, .advance 0 0, .advance 0 0,
    .control 0 (.beginLoad 1), .start (millis 2000) (.loadFrame (madeAt 2)),
    .start (millis 4000) (.loadFrame (madeAt 3)), .start (millis 6000) (.loadFrame (madeAt 4))]

theorem run_heartbeat_iff_in_slow_load :
    .heartbeat ∉ ((blank.pool.run Record.sink slowLoad).feed.tick (millis 8000)).1 ∧
      .heartbeat ∈ ((blank.pool.run Record.sink slowLoad).feed.tick (millis 8001)).1 := by
  have asked := Pool.run_heartbeat_iff Record.sink {} { resolution := .uniform ⟨1, 1⟩ }
    (fun frame => .ok (90, frame.data)) 0 0 {} slowLoad
  constructor
  · intro heartbeat
    exact absurd ((asked (millis 8000)).mp heartbeat).2.2 (by decide)
  · refine (asked (millis 8001)).mpr ⟨by decide, fun alive => ?_, by decide⟩
    have recent : counted (elapsed 0 (millis 8001)) < millis 2000 := alive
    exact absurd recent (by decide)

/-- The load is interrupted although its last frame is not old. -/
theorem heartbeat_behind_cached :
    ¬ ∀ before now pixels after clock,
      let s := blank.run Record.sink before
      let t := s.run Record.sink (.start now (.loadFrame pixels) :: after)
      s.atRest = true → t.atRest = true →
      t.pool.calls[s.pool.calls.length]? = some (.done (.ok .cached)) →
      now ≤ clock → elapsed now clock ≤ t.pool.feed.upkeep.timing.idleThreshold →
        .heartbeat ∉ (t.pool.feed.tick clock).1 := by
  intro uninterrupted
  exact uninterrupted slowLoad (millis 8000) (madeAt 5) [] (millis 8001) (by decide) (by decide)
    (by rfl)
    (by decide) (by decide) (by decide)

end Sequence

end ScreenPreview.Stream
