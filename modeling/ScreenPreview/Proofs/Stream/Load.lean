import ScreenPreview.Proofs.Stream.Locks

/-!
The document load of a feed, apart from everything else.

How far a load has come, when it began and which frame is held back for it hang on nothing but the
load frames, the ticks and the two controls of the load: neither the encoder nor the sink, the
clock or another call has a say. So the load of a pool after any moves is what these moves make of
the load alone (`load_run`).
-/
namespace ScreenPreview

def Picture.Pixels.toHeld (p : Picture.Pixels) : Stream.Upkeep.HeldFrame :=
  ⟨p.width, p.height, p.timestamp, p.trimmed.data⟩

namespace Stream

structure Load where
  state : Screen.LoadState := .init
  stamp : Int := 0
  held : Option Upkeep.HeldFrame := none
  deriving DecidableEq, Repr

namespace Load

def verdict? (l : Load) (pixels : Picture.Pixels) : Option Feed.LoadAdmission :=
  match pixels.check with
  | .error _ => none
  | .ok () =>
    if pixels.timestamp < l.stamp then some .stale
    else if l.state = .finished then some .admitted
    else some .cached

def offer (l : Load) (pixels : Picture.Pixels) : Load :=
  if l.verdict? pixels = some .cached then { l with held := some pixels.toHeld } else l

def restart (l : Load) (stamp : Int) : Load := { l with state := .loading, stamp }

def reach (l : Load) (state : Screen.LoadState) : Load := { l with state }

def replay? (l : Load) : Option Upkeep.HeldFrame := if l.state = .finished then l.held else none

theorem held_of_replay? {l : Load} {held : Upkeep.HeldFrame} (due : l.replay? = some held) :
    l.held = some held := by
  unfold replay? at due
  split at due
  · exact due
  · cases due

def tick (l : Load) : Load := if l.state = .finished then { l with held := none } else l

theorem verdict?_eq_cached_iff {l : Load} {pixels : Picture.Pixels} :
    l.verdict? pixels = some .cached ↔
      pixels.check = .ok () ∧ l.stamp ≤ pixels.timestamp ∧ l.state ≠ .finished := by
  unfold verdict?
  cases pixels.check with
  | error failure => simp
  | ok _ =>
    by_cases stale : pixels.timestamp < l.stamp
    · simp [stale, Int.not_le.mpr stale]
    · by_cases finished : l.state = .finished <;> simp [stale, finished, Int.not_lt.mp stale]

theorem verdict?_eq_admitted_iff {l : Load} {pixels : Picture.Pixels} :
    l.verdict? pixels = some .admitted ↔
      pixels.check = .ok () ∧ l.stamp ≤ pixels.timestamp ∧ l.state = .finished := by
  unfold verdict?
  cases pixels.check with
  | error failure => simp
  | ok _ =>
    by_cases stale : pixels.timestamp < l.stamp
    · simp [stale, Int.not_le.mpr stale]
    · by_cases finished : l.state = .finished <;> simp [stale, finished, Int.not_lt.mp stale]

def move {ω : Type} (l : Load) : Move ω → Load
  | .start _ (.loadFrame pixels) => l.offer pixels
  | .control _ .tick => l.tick
  | .control _ (.beginLoad stamp) => l.restart stamp
  | .control _ (.loadState reached) => l.reach reached
  | _ => l

end Load

/-! ### The load of a feed -/

def Upkeep.load (u : Upkeep) : Load := ⟨u.loadState, u.loadStamp, u.held⟩

def Feed.load (f : Feed) : Load := f.upkeep.load

namespace Upkeep

theorem load_planReplay (u : Upkeep) :
    u.planReplay.1 = u.load.replay?.toList.map .replay ∧ u.planReplay.2.load = u.load.tick := by
  unfold planReplay
  cases state : u.loadState <;> cases held : u.held <;>
    simp [load, Load.replay?, Load.tick, state, held]

theorem planHeartbeat_eq (u : Upkeep) (now : Int) : ∃ graceSpent idle flushStamp flushTime,
    (u.planHeartbeat now).2 = { u with graceSpent, idle, flushStamp, flushTime } := by
  have alive (silence : UInt64) : ∃ graceSpent, (u.alive silence).2 = { u with graceSpent } := by
    unfold alive
    split
    · exact ⟨_, rfl⟩
    · split <;> exact ⟨_, rfl⟩
  have due (v : Upkeep) (silence : UInt64) : ∃ flushStamp flushTime,
      (v.heartbeatDue now silence).2 = { v with flushStamp, flushTime } := by
    simp only [heartbeatDue]
    generalize (if v.flushStamp < v.frameStamp then _ else _ : Bool) = due
    cases due <;> exact ⟨_, _, rfl⟩
  let silence := wholeMillis (u.silence now)
  obtain ⟨graceSpent, asked⟩ := alive silence
  obtain ⟨flushStamp, flushTime, moved⟩ := due { u with graceSpent } silence
  unfold planHeartbeat
  split
  · exact ⟨_, _, _, _, rfl⟩
  · simp only [silence, asked]
    split
    · exact ⟨_, _, _, _, rfl⟩
    · simp only [silence, moved]
      split <;> exact ⟨_, _, _, _, rfl⟩

theorem load_planHeartbeat (u : Upkeep) (now : Int) : (u.planHeartbeat now).2.load = u.load := by
  obtain ⟨_, _, _, _, planned⟩ := u.planHeartbeat_eq now
  rw [planned]
  rfl

theorem load_plan (u : Upkeep) (now : Int) (hasPicture : Bool) :
    (u.plan now hasPicture).2.load = u.load.tick :=
  (load_planHeartbeat _ now).trans u.load_planReplay.2

/-- A tick replays what its load holds back, before anything else, and replays nothing else. -/
theorem plan_eq (u : Upkeep) (now : Int) (hasPicture : Bool) :
    ∃ others : List Intent,
      (u.plan now hasPicture).1 = u.load.replay?.toList.map .replay ++ others ∧
      ∀ held, .replay held ∉ others := by
  refine ⟨u.planReplay.2.planResend now hasPicture ++ (u.planReplay.2.planHeartbeat now).1, ?_, ?_⟩
  · rw [← u.load_planReplay.1, ← List.append_assoc]
    rfl
  · intro held member
    rcases List.mem_append.mp member with resend | heartbeat
    · unfold planResend at resend
      simp only at resend
      split at resend <;> simp at resend
    · unfold planHeartbeat at heartbeat
      split at heartbeat
      · simp at heartbeat
      · simp only at heartbeat
        split at heartbeat
        · simp at heartbeat
        · split at heartbeat <;> simp at heartbeat

theorem replay_mem_plan {u : Upkeep} {now : Int} {hasPicture : Bool} {held : HeldFrame} :
    .replay held ∈ (u.plan now hasPicture).1 ↔ u.load.replay? = some held := by
  obtain ⟨others, planned, none⟩ := u.plan_eq now hasPicture
  rw [planned, List.mem_append]
  simp [none held]

end Upkeep

variable {ω : Type} {sink : Sink ω} {f g : Feed} {c d : Call} {events : List Event}

theorem Call.Packing.load_eq {purpose : Purpose} {header : Wire.Header} {payload : Bytes}
    (packing : Packing c f events g purpose header payload) : g.load = f.load := by
  cases packing <;> rfl

theorem Call.Section.load_eq (taken : Section sink c f events d g) : g.load = f.load := by
  cases taken with
  | encode job =>
    unfold Feed.encode
    split <;> rfl
  | packed packing packs =>
    obtain ⟨_, _, -, rfl⟩ := Feed.pack_ok packs
    exact packing.load_eq
  | unpacked packing => exact packing.load_eq
  | record purpose => cases purpose <;> rfl
  | _ => rfl

namespace Feed

theorem upkeep_admitLive (f : Feed) (now : Int) (change : Int32) :
    (f.admitLive now change).2.upkeep = f.upkeep := by
  obtain ⟨_, _, same⟩ := f.admitLive_feed now change
  rw [same]

theorem load_admitLive (f : Feed) (now : Int) (change : Int32) :
    (f.admitLive now change).2.load = f.load :=
  congrArg Upkeep.load (f.upkeep_admitLive now change)

theorem admitLoad_eq (f : Feed) {pixels : Picture.Pixels} (valid : pixels.check = .ok ()) :
    f.load.verdict? pixels = some (f.admitLoad pixels).1 ∧
      (f.admitLoad pixels).2.load = f.load.offer pixels := by
  simp only [Load.offer, Load.verdict?, valid, admitLoad]
  by_cases stale : pixels.timestamp < f.upkeep.loadStamp
  · simp [stale, load, Upkeep.load]
  · by_cases finished : f.upkeep.loadState = .finished
    · simp [stale, finished, load, Upkeep.load]
    · simp [stale, finished, load, Upkeep.load, Upkeep.hold, Picture.Pixels.toHeld]

end Feed

theorem Request.load_enter (request : Request) (now : Int) (f : Feed) :
    (request.enter now f).2.load = f.load.move (.start now request : Move ω) := by
  cases request with
  | frame pixels =>
    have kept := f.load_admitLive now pixels.change
    simp only [enter, Call.frame, Load.move]
    split
    · rfl
    · split <;> simp_all
  | loadFrame pixels =>
    simp only [enter, Call.loadFrame, Load.move]
    cases valid : pixels.check with
    | error failure => simp [Load.offer, Load.verdict?, valid]
    | ok _ =>
      have offered := (f.admitLoad_eq valid).2
      simp only
      split <;> simp_all
  | intent due => rfl
  | fit => rfl

theorem Control.load_apply (change : Control) (now : Int) (f : Feed) :
    (change.apply now f).load = f.load.move (.control now change : Move ω) := by
  cases change with
  | tick => exact f.upkeep.load_plan now f.lastPicture.isSome
  | flushEvent stamp =>
    simp only [apply, Feed.flushEvent, Upkeep.flushEvent]
    split <;> rfl
  | _ => rfl

namespace Pool

theorem load_step (sink : Sink ω) (p : Pool ω) (move : Move ω) :
    (p.step sink move).feed.load = p.feed.load.move move := by
  cases move with
  | start now request => exact request.load_enter now p.feed
  | advance now number =>
    rcases p.step_advance sink now number with same | ⟨_, _, _, _, _, -, -, taken, step⟩
    · rw [same]
      rfl
    · rw [step]
      exact taken.load_eq
  | control now change =>
    cases needs : change.needs with
    | none =>
      have free : p.free change.needs = true := by simp [needs, Pool.free]
      have applied : p.step sink (.control now change) =
          { p with feed := change.apply now p.feed } := by simp [Pool.step, free]
      rw [applied]
      exact change.load_apply now p.feed
    | some lock =>
      -- A control that waits for a lock leaves the load alone, whether it is put off or not.
      have alone : p.feed.load.move (.control now change : Move ω) = p.feed.load := by
        cases change <;> simp_all [Control.needs, Load.move]
      rcases p.step_control sink now change with same | ⟨-, applied⟩
      · rw [same, alone]
      · rw [applied]
        exact change.load_apply now p.feed
  | world world => rfl

theorem load_run (sink : Sink ω) (p : Pool ω) (moves : List (Move ω)) :
    (p.run sink moves).feed.load = moves.foldl Load.move p.feed.load := by
  induction moves generalizing p with
  | nil => rfl
  | cons move rest ih =>
    have first := p.load_step sink move
    rw [List.foldl_cons, ← first]
    exact ih (p.step sink move)

end Pool

end Stream

end ScreenPreview
