import ScreenPreview.Proofs.Stream.Relay

/-!
Heartbeats that are still true when they are written.

Between the tick that orders a heartbeat and its write a picture may be published, after which the
renderer is no longer silent. The idle cycle tells the two cases apart: none was published exactly
if the cycle lasts and was started by no later tick (`run_heartbeats`). The write does not look at
the cycle, so a heartbeat may come behind a live frame (`heartbeat_behind_frame`).
-/
namespace ScreenPreview.Stream

namespace History

theorem cycling_of_ticked {orders : List Order} {order : Order} (older : History)
    (member : order ∈ orders) (heartbeat : order.due = .heartbeat) :
    cycling (.ticked orders :: older) = true := by
  rw [cycling, Bool.or_eq_true, List.any_eq_true]
  exact Or.inl ⟨order, member, by simp [heartbeat]⟩

theorem not_published_iff {timing : Upkeep.Timing} {late early : History}
    (well : (late ++ early).WellAsked timing) (lasts : early.cycling = true) :
    .published ∉ late ↔ (late ++ early).cycling = true ∧
      ∀ orders, .ticked orders ∈ late → ∀ order ∈ orders, order.due ≠ .heartbeat := by
  induction late with
  | nil => simp [lasts]
  | cons note rest ih =>
    have before : WellAsked timing (rest ++ early) := by
      intro orders older behind
      exact well orders older (behind.trans (List.suffix_cons note _))
    have ih := ih before
    cases note with
    | ticked orders =>
      have asks := well orders (rest ++ early) List.suffix_rfl
      by_cases starts : ∃ order ∈ orders, order.due = .heartbeat
      · -- The tick found no cycle, so the one before it has ended already.
        obtain ⟨order, member, heartbeat⟩ := starts
        have ended := (asks order member).outside heartbeat
        constructor
        · intro none
          have lasting := (ih.mp fun inside => none (List.mem_cons_of_mem _ inside)).1
          rw [ended] at lasting
          cases lasting
        · rintro ⟨-, others⟩
          exact absurd heartbeat (others orders List.mem_cons_self order member)
      · have others : ∀ order ∈ orders, order.due ≠ .heartbeat :=
          fun order member same => starts ⟨order, member, same⟩
        have same : cycling (.ticked orders :: rest ++ early) = cycling (rest ++ early) := by
          have quiet : orders.any (·.due = .heartbeat) = false := by
            simpa using others
          rw [List.cons_append, cycling, quiet, Bool.false_or]
        rw [same, List.mem_cons, not_or]
        constructor
        · rintro ⟨-, none⟩
          obtain ⟨lasting, later⟩ := ih.mp none
          refine ⟨lasting, fun more member => ?_⟩
          rcases List.mem_cons.mp member with first | inside
          · cases first
            exact others
          · exact later more inside
        · rintro ⟨lasting, later⟩
          exact ⟨by simp, ih.mpr ⟨lasting, fun more inside =>
            later more (List.mem_cons_of_mem _ inside)⟩⟩
    | published => simp [cycling]
    | took call order => simpa [cycling] using ih
    | finished now => simpa [cycling] using ih

end History

namespace Relay

variable {ω : Type}

/-- However the tasks of the timer, calls and controls are interleaved on a new feed: a heartbeat
that is about to be written was ordered by a tick, and no picture was published since that tick if
and only if the idle cycle lasts and no later tick has ordered a heartbeat. -/
theorem run_heartbeats (sink : Sink ω) (settings : Settings) (geometry : Screen.Geometry)
    (encoder : Picture.Encoder) (reserve : Nat) (now : Int) (world : ω) (moves : List (Move ω))
    (call : Nat) (wire : Bytes) :
    let r := (start (.new settings geometry encoder reserve now) world).run sink moves
    r.Writes call wire → flagged reserve .empty wire = true →
      ∃ order ∈ r.history.asked, r.history.order? call = some order ∧ order.due = .heartbeat ∧
        (.published ∉ r.history.since order ↔
          r.pool.feed.upkeep.idle = true ∧
            ∀ orders, .ticked orders ∈ r.history.since order →
              ∀ other ∈ orders, other.due ≠ .heartbeat) := by
  intro r writes empty
  have kept : r.Kept sink reserve settings.timing :=
    (kept_new settings geometry encoder reserve now world).run moves
  obtain ⟨order, asked, taken, heartbeat⟩ := (kept.order_of_writes writes).2 empty
  refine ⟨order, asked, taken, heartbeat, ?_⟩
  obtain ⟨orders, before, whole, inside⟩ := History.since_append asked
  have well := kept.well
  rw [whole] at well
  have lasts := History.cycling_of_ticked before inside heartbeat
  have split := History.not_published_iff well lasts
  rw [← whole] at split
  rw [kept.upkeep.1]
  exact split

def nineSeconds : List (Move Record) := sending 0 0 ++ [.tick (millis 9000), .enqueue, .enqueue]

def upToHeartbeat (call : Nat) : List (Move Record) :=
  .take (millis 9002) :: List.replicate 3 (.other (.advance (millis 9002) call)) ++
    .take (millis 9002) :: List.replicate 2 (.other (.advance (millis 9002) (call + 1)))

theorem run_heartbeats_in_silence :
    let r := blank.run Record.sink (nineSeconds ++ upToHeartbeat 1)
    let wire : Bytes := [0, 0, 0, 1, 0, 0, 0, 1, 0, 0, 0, 0, 1]
    r.Writes 2 wire ∧ flagged 0 .empty wire = true ∧
      ∃ order, r.history.order? 2 = some order ∧ .published ∉ r.history.since order := by
  intro r wire
  have writes : r.Writes 2 wire := ⟨⟨.heartbeat, rfl⟩, rfl⟩
  have empty : flagged 0 .empty wire = true := by decide
  obtain ⟨order, -, taken, -, silent⟩ := run_heartbeats Record.sink {}
    { resolution := .uniform ⟨1, 1⟩ } (fun frame => .ok (90, frame.data)) 0 0 {}
    (nineSeconds ++ upToHeartbeat 1) 2 wire writes empty
  refine ⟨writes, empty, order, taken, silent.mpr ⟨by decide, ?_⟩⟩
  have only : r.history.order? 2 = some ⟨1, millis 9000, .heartbeat⟩ := by decide
  obtain rfl := Option.some.inj (only.symm.trans taken)
  intro orders ticked
  have since : .ticked orders ∈
      ([.took 2 ⟨1, millis 9000, .heartbeat⟩, .finished (millis 9002),
        .took 1 ⟨0, millis 9000, .resend⟩] : History) := ticked
  simp at since

/-- A frame is sent while the heartbeat is in the queue, which is written behind it all the same. -/
theorem heartbeat_behind_frame :
    ¬ ∀ moves call wire order, (blank.run Record.sink moves).Writes call wire →
      flagged 0 .empty wire = true →
      (blank.run Record.sink moves).history.order? call = some order →
      .published ∉ (blank.run Record.sink moves).history.since order := by
  intro silent
  have none := silent (nineSeconds ++ sending (millis 9001) 1 ++ upToHeartbeat 2) 3
    [0, 0, 0, 1, 0, 0, 0, 1, 0, 0, 0, 0, 1] ⟨1, millis 9000, .heartbeat⟩ ⟨⟨.heartbeat, rfl⟩, rfl⟩
    (by decide) (by decide)
  exact none (List.mem_of_getElem? (i := 4) rfl)

end Relay

end ScreenPreview.Stream
