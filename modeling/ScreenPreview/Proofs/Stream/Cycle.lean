import ScreenPreview.Proofs.Stream.Flagged
import ScreenPreview.Proofs.Stream.Load

/-!
What the timer goes by: the idle cycle and the time of the last picture.

A tick that asks for a heartbeat starts the cycle, and a picture that is published ends it; the time
of the last picture moves when a picture has been written. Nothing else touches either
(`pulse_advance`, `pulse_enter`, `pulse_apply`).
-/
namespace ScreenPreview.Stream

/-- What a tick looks at to decide on repetitions and heartbeats, but for the clock. -/
structure Pulse where
  idle : Bool
  lastSent : Option Int
  timing : Upkeep.Timing
  deriving DecidableEq

def Upkeep.pulse (u : Upkeep) : Pulse := ⟨u.idle, u.lastSent, u.timing⟩

def Feed.pulse (f : Feed) : Pulse := f.upkeep.pulse

namespace Upkeep

theorem pulse_planReplay (u : Upkeep) : u.planReplay.2.pulse = u.pulse := by
  unfold planReplay
  split <;> rfl

theorem pulse_planHeartbeat (u : Upkeep) (now : Int) :
    ((u.planHeartbeat now).1 = [] ∧ (u.planHeartbeat now).2.pulse = u.pulse) ∨
      (u.planHeartbeat now).1 = [.heartbeat] ∧ u.idle = false ∧
        (u.planHeartbeat now).2.pulse = { u.pulse with idle := true } := by
  have alive (silence : UInt64) : (u.alive silence).2.pulse = u.pulse := by
    unfold alive
    split
    · rfl
    · split <;> rfl
  have due (v : Upkeep) (silence : UInt64) : (v.heartbeatDue now silence).2.pulse = v.pulse := by
    simp only [heartbeatDue]
    generalize (if v.flushStamp < v.frameStamp then _ else _ : Bool) = due
    cases due <;> rfl
  unfold planHeartbeat
  cases idle : u.idle with
  | true => exact Or.inl ⟨rfl, rfl⟩
  | false =>
    simp only [Bool.false_eq_true, if_false]
    split
    · exact Or.inl ⟨rfl, alive _⟩
    · have same := (due (u.alive (wholeMillis (u.silence now))).2
        (wholeMillis (u.silence now))).trans (alive _)
      split
      · refine Or.inr ⟨rfl, trivial, ?_⟩
        rw [← same]
        rfl
      · exact Or.inl ⟨rfl, same⟩

def ResendDue (u : Upkeep) (now : Int) (hasPicture : Bool) : Prop :=
  u.idle = false ∧ hasPicture = true ∧
    ∀ last ∈ u.lastSent, u.timing.resendInterval ≤ elapsed last now

theorem resend_mem_planResend {u : Upkeep} {now : Int} {hasPicture : Bool} :
    .resend ∈ u.planResend now hasPicture ↔ u.ResendDue now hasPicture := by
  unfold planResend ResendDue
  cases u.idle <;> cases hasPicture <;> cases u.lastSent <;> simp

theorem eq_resend_of_mem {u : Upkeep} {now : Int} {hasPicture : Bool} {due : Intent}
    (member : due ∈ u.planResend now hasPicture) : due = .resend := by
  unfold planResend at member
  cases last : u.lastSent with
  | none =>
    simp only [last, List.mem_ite_nil_right] at member
    exact List.mem_singleton.mp member.2
  | some sent =>
    simp only [last, List.mem_ite_nil_right] at member
    exact List.mem_singleton.mp member.2

theorem eq_replay_of_mem {u : Upkeep} {due : Intent} (member : due ∈ u.planReplay.1) :
    ∃ held, due = .replay held := by
  unfold planReplay at member
  split at member
  · exact ⟨_, List.mem_singleton.mp member⟩
  · cases member

theorem resend_mem_plan {u : Upkeep} {now : Int} {hasPicture : Bool} :
    .resend ∈ (u.plan now hasPicture).1 ↔ u.ResendDue now hasPicture := by
  have same : u.planReplay.2.ResendDue now hasPicture ↔ u.ResendDue now hasPicture := by
    have pulse := u.pulse_planReplay
    simp only [Upkeep.pulse, Pulse.mk.injEq] at pulse
    obtain ⟨idle, lastSent, timing⟩ := pulse
    rw [ResendDue, idle, lastSent, timing]
    rfl
  rw [← same, ← resend_mem_planResend]
  constructor
  · intro planned
    simp only [plan, List.mem_append] at planned
    rcases planned with (replay | resend) | heartbeat
    · obtain ⟨held, ⟨⟩⟩ := eq_replay_of_mem replay
    · exact resend
    · rcases u.planReplay.2.pulse_planHeartbeat now with ⟨none, -⟩ | ⟨one, -⟩
      · rw [none] at heartbeat
        cases heartbeat
      · rw [one] at heartbeat
        simp at heartbeat
  · intro due
    simp only [plan, List.mem_append]
    exact Or.inl (Or.inr due)

theorem pulse_plan (u : Upkeep) (now : Int) (hasPicture : Bool) :
    (.heartbeat ∉ (u.plan now hasPicture).1 ∧ (u.plan now hasPicture).2.pulse = u.pulse) ∨
      .heartbeat ∈ (u.plan now hasPicture).1 ∧ u.idle = false ∧
        (u.plan now hasPicture).2.pulse = { u.pulse with idle := true } := by
  have before := u.pulse_planReplay
  have idle : u.planReplay.2.idle = u.idle := congrArg Pulse.idle before
  have others : ∀ due ∈ u.planReplay.1 ++ u.planReplay.2.planResend now hasPicture,
      due ≠ .heartbeat := by
    intro due member
    rcases List.mem_append.mp member with replay | resend
    · obtain ⟨held, rfl⟩ := eq_replay_of_mem replay
      simp
    · rw [eq_resend_of_mem resend]
      simp
  rcases u.planReplay.2.pulse_planHeartbeat now with ⟨none, kept⟩ | ⟨one, outside, starts⟩
  · refine Or.inl ⟨?_, kept.trans before⟩
    intro planned
    simp only [plan, none, List.append_nil] at planned
    exact others _ planned rfl
  · refine Or.inr ⟨?_, idle.symm.trans outside, ?_⟩
    · simp only [plan, one, List.mem_append]
      exact Or.inr (List.mem_singleton.mpr rfl)
    · rw [← before]
      exact starts

end Upkeep

variable {ω : Type} {sink : Sink ω} {f g : Feed} {c d : Call} {events : List Event}

/-! ### Calls and controls -/

theorem Request.pulse_enter (request : Request) (now : Int) (f : Feed) :
    (request.enter now f).2.pulse = f.pulse := by
  have live (change : Int32) : (f.admitLive now change).2.pulse = f.pulse :=
    congrArg Upkeep.pulse (f.upkeep_admitLive now change)
  have load (pixels : Picture.Pixels) : (f.admitLoad pixels).2.pulse = f.pulse := by
    unfold Feed.admitLoad
    split
    · rfl
    · simp only
      split <;> rfl
  cases request with
  | frame pixels =>
    have kept := live pixels.change
    simp only [enter, Call.frame]
    split
    · rfl
    · split <;> simp_all
  | loadFrame pixels =>
    have kept := load pixels
    simp only [enter, Call.loadFrame]
    split
    · rfl
    · split <;> simp_all
  | intent due => rfl
  | fit => rfl

theorem Control.pulse_apply {change : Control} (other : change ≠ .tick) (now : Int) (f : Feed) :
    (change.apply now f).pulse = f.pulse := by
  cases change with
  | tick => exact absurd rfl other
  | flushEvent stamp =>
    simp only [apply, Feed.flushEvent, Upkeep.flushEvent]
    split <;> rfl
  | _ => rfl

def Purpose.isPicture : Purpose → Bool
  | .picture _ _ => true
  | .resend => true
  | .heartbeat => false

theorem Call.Section.pulse_cases (taken : Section sink c f events d g) :
    (∃ job quality picture, c = .publish job quality ∧ events = [.published picture] ∧
        g.pulse = { f.pulse with idle := false }) ∨
      (∃ purpose bytes, c = .record purpose bytes ∧ events = [] ∧
        g.upkeep.idle = f.upkeep.idle) ∨
      (∀ job quality, c ≠ .publish job quality) ∧ (∀ purpose bytes, c ≠ .record purpose bytes) ∧
        (∀ picture, .published picture ∉ events) ∧ g.pulse = f.pulse := by
  cases taken with
  | encode job =>
    refine Or.inr (Or.inr ⟨by simp, by simp, by simp, ?_⟩)
    unfold Feed.encode
    split <;> rfl
  | packed packing packs =>
    obtain ⟨_, _, -, rfl⟩ := Feed.pack_ok packs
    cases packing with
    | publish job quality => exact Or.inl ⟨job, quality, f.output, rfl, rfl, rfl⟩
    | repack last => exact Or.inr (Or.inr ⟨by simp, by simp, by simp, rfl⟩)
    | heartbeat => exact Or.inr (Or.inr ⟨by simp, by simp, by simp, rfl⟩)
  | unpacked packing =>
    cases packing with
    | publish job quality => exact Or.inl ⟨job, quality, f.output, rfl, rfl, rfl⟩
    | repack last => exact Or.inr (Or.inr ⟨by simp, by simp, by simp, rfl⟩)
    | heartbeat => exact Or.inr (Or.inr ⟨by simp, by simp, by simp, rfl⟩)
  | record purpose now bytes =>
    exact Or.inr (Or.inl ⟨purpose, bytes, rfl, rfl, by cases purpose <;> rfl⟩)
  | _ => exact Or.inr (Or.inr ⟨by simp, by simp, by simp, rfl⟩)

theorem Call.pulse_recorded (purpose : Purpose) (now : Int) (bytes : Nat) (f : Feed) :
    (recorded purpose now bytes f).pulse =
      if purpose.isPicture then { f.pulse with lastSent := some now } else f.pulse := by
  cases purpose <;> rfl

namespace Pool

theorem step_of_free (sink : Sink ω) (p : Pool ω) (now : Int) {number : Nat}
    (made : p.calls[number]? = some c) (free : p.free c.needs = true) :
    ∃ d events feed world, Call.Section sink c p.feed events d feed ∧
      p.step sink (.advance now number) =
        { feed, world, calls := p.calls.set number d, log := events.map (number, ·) ++ p.log } := by
  rcases taken : c.step sink.watched now p.feed (p.world, []) with ⟨d, feed, world, seen⟩
  refine ⟨d, _, feed, world, Call.section_step taken, ?_⟩
  simp only [step, made, free, taken, if_true]

theorem step_of_waits (sink : Sink ω) (p : Pool ω) (now : Int) {number : Nat}
    (made : p.calls[number]? = some c) (waits : p.free c.needs = false) :
    p.step sink (.advance now number) = p := by
  simp [step, made, waits]

theorem step_record (sink : Sink ω) (p : Pool ω) (now : Int) {number : Nat} {purpose : Purpose}
    {bytes : Nat} (made : p.calls[number]? = some (.record purpose bytes)) :
    p.step sink (.advance now number) =
      { p with
        feed := Call.recorded purpose now bytes p.feed
        calls := p.calls.set number (.done (.ok (Call.outcome purpose bytes))) } := by
  have free : p.free (Call.record purpose bytes).needs = true := by
    simp [Call.needs, Pool.free]
  simp only [step, made, free, if_true, Call.step, Call.shows]
  rfl

theorem step_tick (sink : Sink ω) (p : Pool ω) (now : Int) :
    p.step sink (.control now .tick) = { p with feed := (p.feed.tick now).2 } := by
  have free : p.free none = true := by simp [Pool.free]
  simp only [step, Control.needs, free, if_true]
  rfl

end Pool

end ScreenPreview.Stream
