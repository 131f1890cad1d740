import ScreenPreview.Proofs.Stream.Headers
import ScreenPreview.Proofs.Stream.Interruptions
import ScreenPreview.Proofs.Stream.Spacing

/-!
The stamp and the time of the last flush event or heartbeat.

A heartbeat takes the stamp of the last load frame, unless the one that is there is later. A flush
event that is not from before the load sets the stamp in any case. So the time never goes back as
long as the clock does not, but the stamp does, exactly when an event that is taken comes behind one
with a later stamp (`run_flushStamp_le_iff`). Such an event, and nothing but it and a new load
frame, makes the load look newer than the last heartbeat, which then waits until nothing is
rendered.
-/
namespace ScreenPreview.Stream

structure Marks where
  flushStamp : Int
  flushTime : Int
  frameStamp : Int
  deriving DecidableEq

def Marks.asked (m : Marks) (now : Int) : Marks :=
  ⟨max m.flushStamp m.frameStamp, now, m.frameStamp⟩

namespace Upkeep

def marks (u : Upkeep) : Marks := ⟨u.flushStamp, u.flushTime, u.frameStamp⟩

/-- A flush event with the stamp would be taken, although the last one or a heartbeat has a later
one. -/
def Late (u : Upkeep) (stamp : Int) : Prop := u.loadStamp ≤ stamp ∧ stamp < u.flushStamp

/-- The load is newer than the last heartbeat. -/
def LoadNewer (u : Upkeep) : Prop := u.flushStamp < u.frameStamp

instance (u : Upkeep) (stamp : Int) : Decidable (u.Late stamp) :=
  inferInstanceAs (Decidable (u.loadStamp ≤ stamp ∧ stamp < u.flushStamp))

instance (u : Upkeep) : Decidable u.LoadNewer :=
  inferInstanceAs (Decidable (u.flushStamp < u.frameStamp))

/-! ### One move -/

theorem marks_alive (u : Upkeep) (silence : UInt64) : (u.alive silence).2.marks = u.marks := by
  unfold alive
  split
  · rfl
  · split <;> rfl

theorem marks_heartbeatDue {u : Upkeep} {now : Int} {silence : UInt64}
    (due : (u.heartbeatDue now silence).1 = true) :
    (u.heartbeatDue now silence).2.marks = u.marks.asked now := by
  simp only [heartbeatDue] at due ⊢
  generalize (if u.flushStamp < u.frameStamp then
    decide (u.timing.idleThreshold < millis silence.toNat) else _) = answer at due ⊢
  cases answer with
  | true => rfl
  | false => cases due

theorem marks_planHeartbeat (u : Upkeep) (now : Int) :
    (u.planHeartbeat now).2.marks =
      if .heartbeat ∈ (u.planHeartbeat now).1 then u.marks.asked now else u.marks := by
  unfold planHeartbeat
  cases u.idle with
  | true => rfl
  | false =>
    rcases u.alive_cases now with ⟨-, answer, -⟩ | ⟨-, answer⟩
    · simp only [answer, if_true]
      exact u.marks_alive _
    · simp only [answer, Bool.false_eq_true, if_false]
      rcases u.heartbeatDue_cases now with ⟨-, answer, -⟩ | ⟨-, answer⟩
      · simp only [answer, if_true]
        exact marks_heartbeatDue answer
      · simp only [answer, Bool.false_eq_true, if_false]
        rfl

theorem marks_plan (u : Upkeep) (now : Int) (hasPicture : Bool) :
    (u.plan now hasPicture).2.marks =
      if .heartbeat ∈ (u.plan now hasPicture).1 then u.marks.asked now else u.marks := by
  have asks : .heartbeat ∈ (u.plan now hasPicture).1 ↔
      .heartbeat ∈ (u.planReplay.2.planHeartbeat now).1 :=
    List.mem_append.trans (or_iff_right (u.heartbeat_notMem_others now hasPicture))
  have replayed : u.planReplay.2.marks = u.marks := by
    obtain ⟨held, same⟩ := u.planReplay_eq
    rw [same]
    rfl
  have marked := u.planReplay.2.marks_planHeartbeat now
  rw [replayed] at marked
  simp only [asks]
  exact marked

end Upkeep

variable {ω : Type} {sink : Sink ω} {clock : Int} {p : Pool ω}

namespace Pool

def marked (p : Pool ω) : Move ω → Marks
  | .start _ (.loadFrame pixels) =>
    if pixels.check = .ok () ∧ p.feed.upkeep.loadStamp ≤ pixels.timestamp then
      { p.feed.upkeep.marks with frameStamp := pixels.timestamp }
    else p.feed.upkeep.marks
  | .control now .tick =>
    if .heartbeat ∈ (p.feed.tick now).1 then p.feed.upkeep.marks.asked now else p.feed.upkeep.marks
  | .control now (.flushEvent stamp) =>
    if p.feed.upkeep.loadStamp ≤ stamp then
      { p.feed.upkeep.marks with flushStamp := stamp, flushTime := now }
    else p.feed.upkeep.marks
  | _ => p.feed.upkeep.marks

theorem marks_step (sink : Sink ω) (p : Pool ω) (move : Move ω) :
    (p.step sink move).feed.upkeep.marks = p.marked move := by
  have same : (⟨p.feed.upkeep, []⟩ : Upkeep.Diary).upkeep = p.feed.upkeep := rfl
  rw [← upkeep_step sink move same]
  cases move with
  | start now request =>
    cases request with
    | loadFrame pixels =>
      simp only [turns, Request.turns, Load.verdict?, marked]
      cases pixels.check with
      | error failure => rfl
      | ok _ =>
        by_cases stale : pixels.timestamp < p.feed.load.stamp
        · have old : ¬ p.feed.upkeep.loadStamp ≤ pixels.timestamp := Int.not_le.mpr stale
          simp only [stale, old, if_true, and_false, if_false]
          rfl
        · have new : p.feed.upkeep.loadStamp ≤ pixels.timestamp := Int.not_lt.mp stale
          simp only [stale, new, if_false, and_self, if_true]
          by_cases finished : p.feed.load.state = .finished
          · simp only [finished, if_true]
            rfl
          · simp only [finished, if_false]
            rfl
    | _ => rfl
  | advance now number =>
    simp only [turns]
    split
    · split
      · rename_i c _ _
        cases c with
        | record purpose bytes => cases purpose <;> rfl
        | _ => rfl
      · rfl
    · rfl
  | control now change =>
    cases change with
    | tick => exact p.feed.upkeep.marks_plan now _
    | flushEvent stamp =>
      have taken : (p.feed.upkeep.flushEvent stamp now).2.marks =
          p.marked (.control now (.flushEvent stamp)) := by
        simp only [marked, Upkeep.flushEvent, ← Int.not_lt]
        split <;> rfl
      exact taken
    | _ => rfl
  | world => rfl

/-! ### The time -/

def shown (before : Int) (move : Move ω) : Int := move.clock?.getD before

def lastClock (clock : Int) (moves : List (Move ω)) : Int := moves.foldl shown clock

def Steady (clock : Int) (moves : List (Move ω)) : Prop :=
  (clock :: moves.filterMap Move.clock?).Pairwise (· ≤ ·)

instance (clock : Int) (moves : List (Move ω)) : Decidable (Steady clock moves) :=
  inferInstanceAs (Decidable ((clock :: moves.filterMap Move.clock?).Pairwise (· ≤ ·)))

theorem Steady.cons {clock : Int} {move : Move ω} {rest : List (Move ω)}
    (steady : Steady clock (move :: rest)) :
    clock ≤ shown clock move ∧ Steady (shown clock move) rest := by
  rw [Steady, List.filterMap_cons] at steady
  rw [Steady, shown]
  cases clocked : move.clock? with
  | none =>
    rw [clocked] at steady
    exact ⟨Int.le_refl _, steady⟩
  | some now =>
    rw [clocked] at steady
    obtain ⟨first, rest⟩ := List.pairwise_cons.mp steady
    exact ⟨first now List.mem_cons_self, rest⟩

theorem Steady.left {clock : Int} {early later : List (Move ω)}
    (steady : Steady clock (early ++ later)) : Steady clock early := by
  rw [Steady, List.filterMap_append, ← List.cons_append] at steady
  exact (List.pairwise_append.mp steady).1

theorem Steady.right {clock : Int} {early later : List (Move ω)}
    (steady : Steady clock (early ++ later)) : Steady (lastClock clock early) later := by
  induction early generalizing clock with
  | nil => exact steady
  | cons move rest ih => exact ih steady.cons.2

theorem flushTime_marked (p : Pool ω) (move : Move ω) (clock : Int) :
    (p.marked move).flushTime = p.feed.upkeep.flushTime ∨
      (p.marked move).flushTime = shown clock move := by
  unfold marked
  split
  · split <;> exact Or.inl rfl
  · split
    · exact Or.inr rfl
    · exact Or.inl rfl
  · split
    · exact Or.inr rfl
    · exact Or.inl rfl
  · exact Or.inl rfl

theorem flushTime_run (sink : Sink ω) {moves : List (Move ω)}
    (timed : p.feed.upkeep.flushTime ≤ clock)
    (steady : Steady clock moves) :
    p.feed.upkeep.flushTime ≤ (p.run sink moves).feed.upkeep.flushTime ∧
      (p.run sink moves).feed.upkeep.flushTime ≤ lastClock clock moves := by
  induction moves generalizing p clock with
  | nil => exact ⟨Int.le_refl _, timed⟩
  | cons move rest ih =>
    have forward := steady.cons.1
    have same : (p.step sink move).feed.upkeep.flushTime = (p.marked move).flushTime :=
      congrArg Marks.flushTime (p.marks_step sink move)
    have step : p.feed.upkeep.flushTime ≤ (p.step sink move).feed.upkeep.flushTime ∧
        (p.step sink move).feed.upkeep.flushTime ≤ shown clock move := by
      rcases p.flushTime_marked move clock with kept | moved <;> omega
    obtain ⟨later, past⟩ := ih step.2 steady.cons.2
    exact ⟨Int.le_trans step.1 later, past⟩

/-! ### The stamp -/

/-- The stamp goes back with an event that is late, and with nothing else. -/
theorem flushStamp_le_step_iff (sink : Sink ω) (p : Pool ω) (move : Move ω) :
    p.feed.upkeep.flushStamp ≤ (p.step sink move).feed.upkeep.flushStamp ↔
      ∀ now stamp, move = .control now (.flushEvent stamp) → ¬ p.feed.upkeep.Late stamp := by
  have same : (p.step sink move).feed.upkeep.flushStamp = (p.marked move).flushStamp :=
    congrArg Marks.flushStamp (p.marks_step sink move)
  rw [same]
  constructor
  · rintro forward now stamp rfl ⟨taken, back⟩
    rw [marked, if_pos taken] at forward
    exact absurd forward (Int.not_le.mpr back)
  · intro prompt
    unfold marked
    split
    · split <;> exact Int.le_refl _
    · split
      · exact Int.le_max_left _ _
      · exact Int.le_refl _
    · rename_i now stamp
      split
      · rename_i taken
        exact Int.not_lt.mp fun back => prompt now stamp rfl ⟨taken, back⟩
      · exact Int.le_refl _
    · exact Int.le_refl _

theorem flushStamp_run (sink : Sink ω) {moves : List (Move ω)}
    (prompt : ∀ past now stamp, past ++ [.control now (.flushEvent stamp)] <+: moves →
      ¬ (p.run sink past).feed.upkeep.Late stamp) :
    p.feed.upkeep.flushStamp ≤ (p.run sink moves).feed.upkeep.flushStamp := by
  induction moves generalizing p with
  | nil => exact Int.le_refl _
  | cons move rest ih =>
    have step : p.feed.upkeep.flushStamp ≤ (p.step sink move).feed.upkeep.flushStamp := by
      refine (flushStamp_le_step_iff sink p move).mpr ?_
      rintro now stamp rfl
      exact prompt [] now stamp (List.prefix_append _ rest)
    refine Int.le_trans step (ih ?_)
    intro past now stamp inside
    exact prompt (move :: past) now stamp (List.cons_prefix_cons.mpr ⟨rfl, inside⟩)

/-- A load that is not newer than the last heartbeat becomes so by a new frame, or by an event that
is older than its last one. -/
theorem loadNewer_step_iff (sink : Sink ω) (p : Pool ω) (move : Move ω)
    (older : ¬ p.feed.upkeep.LoadNewer) :
    (p.step sink move).feed.upkeep.LoadNewer ↔
      (∃ now pixels, move = .start now (.loadFrame pixels) ∧ pixels.check = .ok () ∧
        p.feed.upkeep.loadStamp ≤ pixels.timestamp ∧
        p.feed.upkeep.flushStamp < pixels.timestamp) ∨
      ∃ now stamp, move = .control now (.flushEvent stamp) ∧ p.feed.upkeep.Late stamp ∧
        stamp < p.feed.upkeep.frameStamp := by
  have same : (p.step sink move).feed.upkeep.LoadNewer ↔
      (p.marked move).flushStamp < (p.marked move).frameStamp := by
    rw [← p.marks_step sink move]
    rfl
  rw [same]
  have before : p.feed.upkeep.frameStamp ≤ p.feed.upkeep.flushStamp := Int.not_lt.mp older
  constructor
  · unfold marked
    split
    · rename_i now pixels
      split
      · rename_i admitted
        exact fun newer => Or.inl ⟨now, pixels, rfl, admitted.1, admitted.2, newer⟩
      · exact fun newer => absurd newer older
    · split
      · exact fun newer => absurd newer (Int.not_lt.mpr (Int.le_max_right _ _))
      · exact fun newer => absurd newer older
    · rename_i now stamp
      split
      · rename_i taken
        exact fun newer =>
          Or.inr ⟨now, stamp, rfl, ⟨taken, Int.lt_of_lt_of_le newer before⟩, newer⟩
      · exact fun newer => absurd newer older
    · exact fun newer => absurd newer older
  · rintro (⟨now, pixels, rfl, valid, fresh, newer⟩ | ⟨now, stamp, rfl, late, newer⟩)
    · rw [marked, if_pos ⟨valid, fresh⟩]
      exact newer
    · rw [marked, if_pos late.1]
      exact newer

/-! ### Runs -/

/-- However the calls on a new feed are interleaved while the clock never goes back: the time of the
last flush event or heartbeat never does. Its stamp never does exactly if every event that is taken
has a stamp that is not below it. A load comes to look newer than the last heartbeat with a frame
that is let in and newer, and with a late event that is older than the last frame. -/
theorem run_flushStamp_le_iff (sink : Sink ω) (settings : Settings) (geometry : Screen.Geometry)
    (encoder : Picture.Encoder) (reserve : Nat) (began : Int) (world : ω) (moves : List (Move ω))
    (steady : Steady began moves) :
    let after := fun past =>
      ((start (.new settings geometry encoder reserve began) world).run sink past).feed.upkeep
    (∀ early late, early <+: late → late <+: moves →
      (after early).flushTime ≤ (after late).flushTime) ∧
    ((∀ early late, early <+: late → late <+: moves →
        (after early).flushStamp ≤ (after late).flushStamp) ↔
      ∀ past now stamp, past ++ [.control now (.flushEvent stamp)] <+: moves →
        ¬ (after past).Late stamp) ∧
    ∀ past move, ¬ (after past).LoadNewer →
      ((after (past ++ [move])).LoadNewer ↔
        (∃ now pixels, move = .start now (.loadFrame pixels) ∧ pixels.check = .ok () ∧
          (after past).loadStamp ≤ pixels.timestamp ∧
          (after past).flushStamp < pixels.timestamp) ∨
        ∃ now stamp, move = .control now (.flushEvent stamp) ∧ (after past).Late stamp ∧
          stamp < (after past).frameStamp) := by
  intro after
  have append (early later : List (Move ω)) : after (early ++ later) =
      (((start (.new settings geometry encoder reserve began) world).run sink early).run
        sink later).feed.upkeep := by
    simp only [after, run_append]
  refine ⟨?_, ⟨?_, ?_⟩, ?_⟩
  · rintro early _ ⟨more, rfl⟩ ⟨rest, rfl⟩
    have new : (start (.new settings geometry encoder reserve began) world).feed.upkeep.flushTime ≤
        began := Int.le_refl began
    have begun := (flushTime_run sink new steady.left.left).2
    rw [append]
    exact (flushTime_run sink begun steady.left.right).1
  · intro forward past now stamp inside
    have step := forward past _ (List.prefix_append _ _) inside
    rw [append] at step
    exact (flushStamp_le_step_iff sink _ _).mp step now stamp rfl
  · rintro prompt early _ ⟨more, rfl⟩ inside
    rw [append]
    refine flushStamp_run sink fun past now stamp within => ?_
    have late := prompt (early ++ past) now stamp
    rw [append, List.append_assoc] at late
    exact late (((List.prefix_append_right_inj early).mpr within).trans inside)
  · intro past move older
    rw [append]
    exact loadNewer_step_iff sink _ move older

def idlePool : Pool Record :=
  start (.new {} { resolution := .uniform ⟨1, 1⟩ } (fun frame => .ok (90, frame.data)) 0 0) {}

def eventsInOrder : List (Move Record) :=
  [.control 0 (.beginLoad 60), .control 5 (.flushEvent 70), .control 5 (.flushEvent 50),
    .control 6 (.flushEvent 90)]

theorem run_flushStamp_le_iff_of_events_in_order :
    Steady 0 eventsInOrder ∧
    (idlePool.run Record.sink eventsInOrder).feed.upkeep.flushStamp = 90 ∧
    ∀ early late, early <+: late → late <+: eventsInOrder →
      (idlePool.run Record.sink early).feed.upkeep.flushStamp ≤
        (idlePool.run Record.sink late).feed.upkeep.flushStamp := by
  have steady : Steady 0 eventsInOrder := by decide
  refine ⟨steady, by decide, ?_⟩
  refine (run_flushStamp_le_iff Record.sink {} { resolution := .uniform ⟨1, 1⟩ }
    (fun frame => .ok (90, frame.data)) 0 0 {} eventsInOrder steady).2.1.mpr ?_
  rintro past now stamp ⟨rest, whole⟩
  rcases past with _ | ⟨_, _ | ⟨_, _ | ⟨_, _ | ⟨_, past⟩⟩⟩⟩ <;>
    simp only [eventsInOrder, List.nil_append, List.cons_append, List.cons.injEq] at whole
  · cases whole.1
  · obtain ⟨rfl, ⟨⟩, -⟩ := whole
    decide
  · obtain ⟨rfl, rfl, ⟨⟩, -⟩ := whole
    decide
  · obtain ⟨rfl, rfl, rfl, ⟨⟩, -⟩ := whole
    decide
  · cases past <;> cases whole.2.2.2.2

/-- An event behind one with a later stamp makes the load of before newer again, and a heartbeat
that was due is not asked for. -/
theorem late_event_renews_load :
    let before : List (Move Record) :=
      [.start 0 (.loadFrame (madeAt 70)), .control 0 (.flushEvent 100)]
    let late : List (Move Record) := [.control 0 (.flushEvent 50)]
    let frame : List (Move Record) := .start (millis 4000) (.frame (madeAt 0)) ::
      List.replicate 4 (.advance (millis 4000) 1)
    let after := fun moves => (idlePool.run Record.sink moves).feed
    Ordered 0 (before ++ late ++ frame) ∧
      (after before).upkeep.flushStamp = 100 ∧ (after (before ++ late)).upkeep.flushStamp = 50 ∧
      ¬ (after before).upkeep.LoadNewer ∧ (after (before ++ late)).upkeep.LoadNewer ∧
      .heartbeat ∈ ((after (before ++ frame)).tick (millis 8001)).1 ∧
      .heartbeat ∉ ((after (before ++ late ++ frame)).tick (millis 8001)).1 := by
  decide +kernel

end Pool

end ScreenPreview.Stream
