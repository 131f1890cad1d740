import ScreenPreview.Proofs.Stream.Relay

/-!
How far a repetition is from the picture before it.

A tick asks for a repetition when the interval has passed since the last picture was written. The
repetition is written later, and nothing compares the two instants again. It keeps the interval as
long as every picture that was written since the tick keeps it, and no longer (`run_resends`): what
was written before the tick is far enough behind already, as the clock never goes back (`Timed`). A
second repetition that is ordered before the first is written does not (`resend_behind_resend`).
-/
namespace ScreenPreview.Stream

namespace History

variable {clock : Int} {h : History}

def Timed (clock : Int) : History → Prop
  | [] => True
  | .ticked orders :: older =>
    (∀ order ∈ orders, order.tick ≤ clock ∧ Timed order.tick older) ∧ Timed clock older
  | .finished now :: older => now ≤ clock ∧ Timed now older
  | .took _ _ :: older => Timed clock older
  | .published :: older => Timed clock older

theorem Timed.later {late : Int} (timed : h.Timed clock) (le : clock ≤ late) : h.Timed late := by
  induction h with
  | nil => trivial
  | cons note older ih =>
    cases note with
    | ticked orders =>
      obtain ⟨ticks, before⟩ := timed
      refine ⟨fun order member => ?_, ih before⟩
      obtain ⟨tick, behind⟩ := ticks order member
      exact ⟨Int.le_trans tick le, behind⟩
    | finished now => exact ⟨Int.le_trans timed.1 le, timed.2⟩
    | took call order => exact ih timed
    | published => exact ih timed

theorem Timed.older {note : Note} (timed : Timed clock (note :: h)) : h.Timed clock := by
  cases note with
  | ticked orders => exact timed.2
  | finished now => exact timed.2.later timed.1
  | took call order => exact timed
  | published => exact timed

theorem Timed.early {late early : History} (timed : (late ++ early).Timed clock) :
    early.Timed clock := by
  induction late with
  | nil => exact timed
  | cons note rest ih => exact ih timed.older

theorem Timed.le_of_finished (timed : h.Timed clock) {finish : Int}
    (member : .finished finish ∈ h) : finish ≤ clock := by
  induction h with
  | nil => cases member
  | cons note older ih =>
    rcases List.mem_cons.mp member with rfl | before
    · exact timed.1
    · exact ih timed.older before

theorem finished_of_lastFinished {last : Int} (finished : last ∈ h.lastFinished) :
    .finished last ∈ h := by
  induction h with
  | nil => cases finished
  | cons note older ih =>
    cases note with
    | finished now =>
      cases finished
      exact List.mem_cons_self
    | _ => exact List.mem_cons_of_mem _ (ih finished)

/-- If the last picture of an early part is the interval behind the clock, only those after it
decide whether the last one is. -/
theorem spaced_iff {interval : Nat} {late early : History} (timed : (late ++ early).Timed clock)
    (spaced : ∀ last ∈ early.lastFinished, last + interval ≤ clock) :
    (∀ last ∈ (late ++ early).lastFinished, last + interval ≤ clock) ↔
      ∀ finish, .finished finish ∈ late → finish + interval ≤ clock := by
  induction late with
  | nil => simpa using spaced
  | cons note rest ih =>
    have ih := ih timed.older
    cases note with
    | finished now =>
      constructor
      · -- This one is the last, and no other of the late part finished after it.
        intro last finish member
        have far := last now rfl
        have le : finish ≤ now := by
          rcases List.mem_cons.mp member with same | before
          · cases same
            exact Int.le_refl _
          · exact timed.2.le_of_finished (List.mem_append_left _ before)
        omega
      · intro all last same
        cases same
        exact all now List.mem_cons_self
    | _ => simpa [lastFinished] using ih

theorem spaced_of_tick {timing : Upkeep.Timing} {before : History} {orders : List Order}
    {order : Order} (well : WellAsked timing (.ticked orders :: before))
    (timed : Timed clock (.ticked orders :: before)) (member : order ∈ orders)
    (resend : order.due = .resend) :
    ∀ last ∈ before.lastFinished, last + timing.resendInterval ≤ clock := by
  intro last finished
  obtain ⟨tick, behind⟩ := timed.1 order member
  have le : last ≤ order.tick := behind.le_of_finished (finished_of_lastFinished finished)
  have far := (well orders before List.suffix_rfl order member).spaced resend last finished
  rw [elapsed] at far
  omega

end History

namespace Relay

variable {ω : Type}

def Move.clock (before : Int) (move : Move ω) : Int := move.clock?.getD before

variable {sink : Sink ω} {clock : Int} {r : Relay ω}

def Steady (clock : Int) (moves : List (Move ω)) : Prop :=
  (clock :: moves.filterMap Move.clock?).Pairwise (· ≤ ·)

instance (clock : Int) (moves : List (Move ω)) : Decidable (Steady clock moves) :=
  inferInstanceAs (Decidable ((clock :: moves.filterMap Move.clock?).Pairwise (· ≤ ·)))

/-- The instants that the moves carry never go back. -/
def Ordered (began : Int) (moves : List (Move ω)) : Prop :=
  (began :: moves.filterMap Move.instant?).Pairwise (· ≤ ·)

instance (began : Int) (moves : List (Move ω)) : Decidable (Ordered began moves) :=
  inferInstanceAs (Decidable ((began :: moves.filterMap Move.instant?).Pairwise (· ≤ ·)))

theorem Steady.cons {move : Move ω} {rest : List (Move ω)} (steady : Steady clock (move :: rest)) :
    clock ≤ move.clock clock ∧ Steady (move.clock clock) rest := by
  unfold Steady Move.clock at *
  rw [List.filterMap_cons] at steady
  cases shown : move.clock? with
  | none =>
    rw [shown] at steady
    exact ⟨Int.le_refl _, steady⟩
  | some now =>
    rw [shown] at steady
    obtain ⟨first, rest⟩ := List.pairwise_cons.mp steady
    exact ⟨first now List.mem_cons_self, rest⟩

theorem timed_step (timed : r.history.Timed clock) {move : Move ω}
    (le : clock ≤ move.clock clock) : (r.step sink move).history.Timed (move.clock clock) := by
  have later := timed.later le
  cases move with
  | tick now =>
    simp only [Relay.step]
    split
    · refine ⟨fun order member => ?_, later⟩
      rw [(mem_list member).1]
      exact ⟨Int.le_refl _, later⟩
    · exact later
  | enqueue =>
    simp only [Relay.step]
    split
    · exact later
    · split <;> exact later
  | take now =>
    simp only [Relay.step]
    split
    · exact later
    · split <;> exact later
  | other move =>
    simp only [Relay.step]
    split
    · exact later
    · rcases r.pool.noted_cases move with none | published | ⟨now, shown, finished⟩
      · rw [none]
        exact later
      · rw [published]
        exact later
      · rw [finished]
        have same : Move.clock clock (.other move) = now := by simp [Move.clock, Move.clock?, shown]
        rw [same] at later ⊢
        exact ⟨Int.le_refl _, later⟩

theorem timed_run (timed : r.history.Timed clock) {moves : List (Move ω)} {late : Int} {call : Nat}
    (steady : Steady clock (moves ++ [.other (.advance late call)])) :
    (r.run sink moves).history.Timed late := by
  induction moves generalizing r clock with
  | nil => exact timed.later steady.cons.1
  | cons move rest ih =>
    obtain ⟨le, steady⟩ := Steady.cons steady
    exact ih (timed_step timed le) steady

/-- However the tasks of the timer, calls and controls are interleaved on a new feed while the clock
does not go back: a repetition whose write starts now was ordered by a tick, and the last picture
was written the interval ago or earlier if and only if every picture written since that tick was. -/
theorem run_resends (sink : Sink ω) (settings : Settings) (geometry : Screen.Geometry)
    (encoder : Picture.Encoder) (reserve : Nat) (begun now : Int) (world : ω)
    (moves : List (Move ω)) (call : Nat) (wire : Bytes)
    (steady : Steady begun (moves ++ [.other (.advance now call)])) :
    let r := (start (.new settings geometry encoder reserve begun) world).run sink moves
    let interval := settings.timing.resendInterval
    r.Writes call wire → flagged reserve .resend wire = true →
      ∃ order ∈ r.history.asked, r.history.order? call = some order ∧ order.due = .resend ∧
        ((∀ last ∈ r.history.lastFinished, last + interval ≤ now) ↔
          ∀ finish, .finished finish ∈ r.history.since order → finish + interval ≤ now) := by
  intro r interval writes repeated
  have kept : r.Kept sink reserve settings.timing :=
    (kept_new settings geometry encoder reserve begun world).run moves
  have nothing : History.Timed begun [] := trivial
  have timed : r.history.Timed now := timed_run nothing steady
  obtain ⟨order, asked, taken, resend⟩ := (kept.order_of_writes writes).1 repeated
  refine ⟨order, asked, taken, resend, ?_⟩
  obtain ⟨orders, before, whole, inside⟩ := History.since_append asked
  have well := kept.well.of_suffix (whole ▸ List.suffix_append _ _)
  rw [whole] at timed
  have spaced := History.spaced_of_tick well timed.early inside resend
  have split := History.spaced_iff timed spaced
  rwa [← whole] at split

def overtaken : List (Move Record) :=
  sending 0 0 ++ [.tick (millis 300), .enqueue] ++ sending (millis 301) 1 ++
    [.take (millis 700), .other (.advance (millis 700) 2)]

theorem run_resends_behind_frame :
    let r := blank.run Record.sink overtaken
    let wire : Bytes := [0, 0, 0, 1, 0, 0, 0, 1, 0, 0, 0, 4, 2, 1, 2, 3, 4]
    Steady 0 (overtaken ++ [.other (.advance (millis 700) 2)]) ∧ r.Writes 2 wire ∧
      flagged 0 .resend wire = true ∧
      ∀ last ∈ r.history.lastFinished, last + millis 300 ≤ (millis 700 : Int) := by
  intro r wire
  have steady : Steady 0 (overtaken ++ [.other (.advance (millis 700) 2)]) := by decide
  have writes : r.Writes 2 wire := ⟨⟨.resend, rfl⟩, rfl⟩
  have repeated : flagged 0 .resend wire = true := by decide
  obtain ⟨order, -, taken, -, spaced⟩ := run_resends Record.sink {}
    { resolution := .uniform ⟨1, 1⟩ } (fun frame => .ok (90, frame.data)) 0 0 (millis 700) {}
    overtaken 2 wire steady writes repeated
  refine ⟨steady, writes, repeated, spaced.mpr ?_⟩
  have only : r.history.order? 2 = some ⟨0, millis 300, .resend⟩ := by decide
  obtain rfl := Option.some.inj (only.symm.trans taken)
  intro finish member
  have since : .finished finish ∈
      ([.took 2 ⟨0, millis 300, .resend⟩, .finished (millis 301), .published] : History) := member
  obtain rfl : finish = millis 301 := by simpa using since
  decide

/-- Two ticks order a repetition each while none is written, and both are written at once. -/
theorem resend_behind_resend :
    ¬ ∀ moves call wire now, Ordered 0 (moves ++ [.other (.advance now call)]) →
      (blank.run Record.sink moves).Writes call wire → flagged 0 .resend wire = true →
      ∀ last ∈ (blank.run Record.sink moves).history.lastFinished, last + millis 300 ≤ now := by
  intro spaced
  have apart := spaced
    (sending 0 0 ++
      [.tick (millis 300), .enqueue, .tick (millis 350), .enqueue, .take (millis 360)] ++
      List.replicate 3 (.other (.advance (millis 360) 1)) ++
      [.take (millis 360), .other (.advance (millis 360) 2)])
    2 [0, 0, 0, 1, 0, 0, 0, 1, 0, 0, 0, 4, 2, 1, 2, 3, 4] (millis 360) (by decide)
    ⟨⟨.resend, rfl⟩, rfl⟩
    (by decide) (millis 360) rfl
  exact absurd apart (by decide)

end Relay

end ScreenPreview.Stream
