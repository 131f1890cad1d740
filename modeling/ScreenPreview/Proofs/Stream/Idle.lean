import ScreenPreview.Proofs.Stream.Cycle
import ScreenPreview.Proofs.Stream.Standing
import ScreenPreview.Stream.Record

/-!
The idle cycle of calls that are made one after the other.

A tick starts the cycle when it asks for a heartbeat, before it is known what becomes of that. So
whenever the cycle lasts, a heartbeat was asked for since the last picture was published, but one
was written only if one of those that were asked for came through (`run_idle`). Without a viewer
none does, and the cycle lasts all the same (`idle_without_heartbeat`).
-/
namespace ScreenPreview.Stream

open Event (requests writes)

def Event.isPublished : Event → Bool
  | .published _ => true
  | _ => false

def Log.sincePublished (log : Log) : Log := log.takeWhile fun entry => !entry.2.isPublished

def Log.WroteHeartbeat (reserve : Nat) (log : Log) : Prop :=
  ∃ number wire bytes, (number, .wrote wire (.ok bytes)) ∈ log ∧ flagged reserve .empty wire = true

namespace Log

theorem sincePublished_append {fresh log : Log}
    (none : ∀ entry ∈ fresh, entry.2.isPublished = false) :
    (fresh ++ log).sincePublished = fresh ++ log.sincePublished := by
  apply List.takeWhile_append_of_pos
  intro entry member
  rw [none entry member]
  rfl

theorem mem_of_sincePublished {entry : Nat × Event} {log : Log}
    (member : entry ∈ log.sincePublished) : entry ∈ log :=
  (List.takeWhile_prefix _).subset member

/-- The calls of a log come one behind the other, so a call that publishes nothing is as a whole
before or as a whole behind the last picture. -/
theorem mem_sincePublished {log : Log}
    (sorted : log.Pairwise fun newer older => older.1 ≤ newer.1) {number : Nat}
    {event other : Event}
    (member : (number, event) ∈ log) (within : (number, other) ∈ log.sincePublished)
    (silent : ∀ picture, (number, .published picture) ∉ log) :
    (number, event) ∈ log.sincePublished := by
  have whole : log.sincePublished ++ log.dropWhile (fun entry => !entry.2.isPublished) = log :=
    List.takeWhile_append_dropWhile
  rw [← whole] at member sorted
  obtain ⟨-, behind, across⟩ := List.pairwise_append.mp sorted
  rcases List.mem_append.mp member with here | older
  · exact here
  · exfalso
    cases rest : log.dropWhile (fun entry => !entry.2.isPublished) with
    | nil =>
      rw [rest] at older
      cases older
    | cons last tail =>
      rw [rest] at older behind across
      -- The first entry behind is the picture, and the call stands on both sides of it.
      have published : last.2.isPublished = true := by
        have first := List.head_dropWhile_not (fun entry : Nat × Event => !entry.2.isPublished)
          (l := log) (by simp [rest])
        simpa [rest] using first
      have upper : last.1 ≤ number := across _ within last List.mem_cons_self
      have lower : number ≤ last.1 := by
        rcases List.mem_cons.mp older with rfl | later
        · exact Nat.le_refl number
        · exact (List.pairwise_cons.mp behind).1 _ later
      obtain ⟨actor, what⟩ := last
      have own : actor = number := Nat.le_antisymm upper lower
      subst own
      cases what with
      | published picture =>
        apply silent picture
        rw [← whole, rest]
        exact List.mem_append_right _ List.mem_cons_self
      | _ => cases published

end Log

/-- Calls that are made one after the other, and what the last tick asked for and was not begun
yet. -/
structure Sequence (ω : Type) where
  pool : Pool ω
  due : List Upkeep.Intent := []

namespace Pool

variable {ω : Type}

def allDone (p : Pool ω) : Bool := p.calls.all fun c => c.result?.isSome

theorem allDone_iff {p : Pool ω} :
    p.allDone = true ↔ ∀ c ∈ p.calls, ∃ result, c = .done result := by
  rw [allDone, List.all_eq_true]
  apply forall₂_congr
  intro c member
  cases c <;> simp [Call.result?]

theorem not_published_start {c : Call} {request : Request} {number : Nat} :
    ∀ entry ∈ (c.claims ++ [Event.asked request]).map (number, ·),
      entry.2.isPublished = false := by
  unfold Call.claims
  split <;> simp [Event.isPublished]

end Pool

namespace Sequence

variable {ω : Type}

def start (feed : Feed) (world : ω) : Sequence ω := { pool := .start feed world }

def atRest (s : Sequence ω) : Bool := s.pool.allDone && s.due.isEmpty

/-- What is due after a move, if the move may be made now. A call is made when the one before it is
done; first those that the last tick asked for, in order, and no other tick before them. -/
def dueAfter? (s : Sequence ω) : Move ω → Option (List Upkeep.Intent)
  | .start _ (.intent due) => if s.pool.allDone && s.due.head? == some due then s.due.tail else none
  | .start _ _ => if s.atRest then some [] else none
  | .control now .tick => if s.atRest then some (s.pool.feed.tick now).1 else none
  | _ => some s.due

def step (sink : Sink ω) (s : Sequence ω) (move : Move ω) : Sequence ω :=
  match s.dueAfter? move with
  | none => s
  | some due => ⟨s.pool.step sink move, due⟩

def run (sink : Sink ω) (s : Sequence ω) (moves : List (Move ω)) : Sequence ω :=
  moves.foldl (step sink) s

structure Kept (sink : Sink ω) (reserve : Nat) (s : Sequence ω) : Prop where
  sound : s.pool.Sound sink reserve
  fits : s.pool.log.Fits reserve
  earlier : ∀ number c, s.pool.calls[number]? = some c → number + 1 < s.pool.calls.length →
    ∃ result, c = .done result
  sorted : s.pool.log.Pairwise fun newer older => older.1 ≤ newer.1
  cycle : s.pool.feed.upkeep.idle = true → .heartbeat ∈ s.due ∨
    ∃ number, (number, .asked (.intent .heartbeat)) ∈ s.pool.log.sincePublished

variable {sink : Sink ω} {n : Nat} {s : Sequence ω}

theorem atRest_iff : s.atRest = true ↔ s.pool.allDone = true ∧ s.due = [] := by
  rw [atRest, Bool.and_eq_true, List.isEmpty_iff]

theorem Kept.start (kept : s.Kept sink n) (now : Int) {request : Request}
    {due : List Upkeep.Intent} (done : s.pool.allDone = true)
    (follows : s.due = [] ∨ ∃ first, s.due = first :: due ∧ request = .intent first) :
    Kept sink n ⟨s.pool.step sink (.start now request), due⟩ := by
  obtain ⟨sound, fits, -, sorted, cycle⟩ := kept
  have idle := congrArg Pulse.idle (request.pulse_enter now s.pool.feed)
  refine ⟨Pool.sound_start sound now request, Pool.fits_start sound fits now request, ?_, ?_, ?_⟩
  all_goals simp only [Pool.step_start]
  · intro number c made behind
    rcases Pool.calls_append made with before | ⟨rfl, -⟩
    · exact Pool.allDone_iff.mp done c (List.mem_of_getElem? before)
    · simp at behind
  · refine List.pairwise_append.mpr ⟨?_, sorted, ?_⟩
    · exact List.pairwise_map.mpr (List.pairwise_of_forall fun _ _ => Nat.le_refl _)
    · intro fresh member older behind
      obtain ⟨event, -, rfl⟩ := List.mem_map.mp member
      exact Nat.le_of_lt (sound.numbers older behind)
  · intro lasts
    rw [Log.sincePublished_append Pool.not_published_start]
    rcases cycle (idle.symm.trans lasts) with planned | ⟨number, asked⟩
    · rcases follows with none | ⟨first, split, rfl⟩
      · rw [none] at planned
        cases planned
      · rw [split] at planned
        rcases List.mem_cons.mp planned with rfl | later
        · exact Or.inr ⟨s.pool.calls.length, by simp⟩
        · exact Or.inl later
    · exact Or.inr ⟨number, List.mem_append_right _ asked⟩

theorem Kept.advance (kept : s.Kept sink n) (now : Int) (number : Nat) :
    Kept sink n ⟨s.pool.step sink (.advance now number), s.due⟩ := by
  obtain ⟨sound, fits, earlier, sorted, cycle⟩ := kept
  have next_sound := Pool.sound_advance sound now number
  have next_fits := Pool.fits_step sound fits (.advance now number)
  rcases s.pool.step_advance sink now number with
    same | ⟨c, d, events, feed, world, made, -, taken, step⟩
  · rw [same]
    exact ⟨sound, fits, earlier, sorted, cycle⟩
  have newest : events ≠ [] → number + 1 = s.pool.calls.length := by
    intro some_events
    have inside := (List.getElem?_eq_some_iff.mp made).1
    rcases Nat.lt_or_ge (number + 1) s.pool.calls.length with before | last
    · obtain ⟨result, rfl⟩ := earlier number c made before
      exact absurd taken.done_eq.1 some_events
    · omega
  refine ⟨next_sound, next_fits, ?_, ?_, ?_⟩
  all_goals simp only [step]
  · intro other e other_made behind
    rw [List.length_set] at behind
    rcases Pool.calls_set other_made with ⟨rfl, rfl⟩ | ⟨-, before⟩
    · obtain ⟨result, rfl⟩ := earlier other c made behind
      exact ⟨result, taken.done_eq.2⟩
    · exact earlier other e before behind
  · refine List.pairwise_append.mpr ⟨?_, sorted, ?_⟩
    · exact List.pairwise_map.mpr (List.pairwise_of_forall fun _ _ => Nat.le_refl _)
    · intro fresh member older behind
      obtain ⟨event, among, rfl⟩ := List.mem_map.mp member
      have last := newest (List.ne_nil_of_mem among)
      have before := sound.numbers older behind
      show older.1 ≤ number
      omega
  · intro lasts
    rcases taken.pulse_cases with ⟨_, _, _, -, -, ended⟩ | ⟨_, _, -, rfl, same⟩ |
      ⟨-, -, none, same⟩
    · have outside : feed.upkeep.idle = false := congrArg Pulse.idle ended
      rw [outside] at lasts
      cases lasts
    · exact cycle (same.symm.trans lasts)
    · have silent : ∀ entry ∈ events.map (number, ·), entry.2.isPublished = false := by
        intro entry member
        obtain ⟨event, among, rfl⟩ := List.mem_map.mp member
        cases event with
        | published picture => exact absurd among (none picture)
        | _ => rfl
      have before : s.pool.feed.upkeep.idle = true := (congrArg Pulse.idle same).symm.trans lasts
      rw [Log.sincePublished_append silent]
      rcases cycle before with planned | ⟨actor, asked⟩
      · exact Or.inl planned
      · exact Or.inr ⟨actor, List.mem_append_right _ asked⟩

theorem Kept.tick (kept : s.Kept sink n) (now : Int) (rest : s.atRest = true) :
    Kept sink n ⟨s.pool.step sink (.control now .tick), (s.pool.feed.tick now).1⟩ := by
  obtain ⟨sound, fits, earlier, sorted, cycle⟩ := kept
  have next_sound := Pool.sound_control sound now .tick
  rw [Pool.step_tick] at next_sound ⊢
  refine ⟨next_sound, fits, earlier, sorted, fun lasts => ?_⟩
  rcases s.pool.feed.upkeep.pulse_plan now s.pool.feed.lastPicture.isSome with
    ⟨-, same⟩ | ⟨planned, -⟩
  · -- Nothing is due before the tick, so the cycle was started by a heartbeat that was asked for.
    rcases cycle ((congrArg Pulse.idle same).symm.trans lasts) with due | asked
    · rw [(atRest_iff.mp rest).2] at due
      cases due
    · exact Or.inr asked
  · exact Or.inl planned

theorem Kept.control (kept : s.Kept sink n) (now : Int) {change : Control}
    (other : change ≠ .tick) :
    Kept sink n ⟨s.pool.step sink (.control now change), s.due⟩ := by
  obtain ⟨sound, fits, earlier, sorted, cycle⟩ := kept
  have next_sound := Pool.sound_control sound now change
  rcases s.pool.step_control sink now change with same | ⟨-, step⟩
  · rw [same]
    exact ⟨sound, fits, earlier, sorted, cycle⟩
  · rw [step] at next_sound ⊢
    have idle := congrArg Pulse.idle (Control.pulse_apply other now s.pool.feed)
    exact ⟨next_sound, fits, earlier, sorted, fun lasts => cycle (idle.symm.trans lasts)⟩

theorem Kept.step (kept : s.Kept sink n) (move : Move ω) : (s.step sink move).Kept sink n := by
  unfold Sequence.step
  cases allowed : s.dueAfter? move with
  | none => exact kept
  | some due =>
    cases move with
    | start now request =>
      cases request with
      | intent first =>
        simp only [dueAfter?, Option.ite_none_right_eq_some, Bool.and_eq_true, beq_iff_eq]
          at allowed
        obtain ⟨⟨done, next⟩, same⟩ := allowed
        obtain ⟨later, split⟩ := List.head?_eq_some_iff.mp next
        rw [split] at same
        cases same
        exact kept.start now done (Or.inr ⟨first, split, rfl⟩)
      | _ =>
        simp only [dueAfter?, Option.ite_none_right_eq_some] at allowed
        obtain ⟨done, none⟩ := atRest_iff.mp allowed.1
        exact kept.start now done (Or.inl none)
    | advance now number =>
      cases allowed
      exact kept.advance now number
    | control now change =>
      cases change with
      | tick =>
        simp only [dueAfter?, Option.ite_none_right_eq_some] at allowed
        obtain ⟨rest, same⟩ := allowed
        cases same
        exact kept.tick now rest
      | _ =>
        cases allowed
        exact kept.control now (by simp)
    | world world =>
      cases allowed
      exact ⟨Pool.sound_step kept.sound (.world world), kept.fits, kept.earlier, kept.sorted,
        kept.cycle⟩

theorem Kept.run (kept : s.Kept sink n) (moves : List (Move ω)) :
    (s.run sink moves).Kept sink n := by
  induction moves generalizing s with
  | nil => exact kept
  | cons move rest ih => exact ih (kept.step move)

theorem kept_new (settings : Settings) (geometry : Screen.Geometry) (encoder : Picture.Encoder)
    (reserve : Nat) (now : Int) (world : ω) :
    (start (.new settings geometry encoder reserve now) world).Kept sink reserve where
  sound := Pool.sound_new settings geometry encoder reserve now world
  fits := by
    intro number event member
    cases member
  earlier := by
    intro number c made
    cases made
  sorted := .nil
  cycle := by
    intro lasts
    cases lasts

end Sequence

theorem mem_writes {trail : List Event} {wire : Bytes} {result : Except Failure Nat} :
    (wire, result) ∈ writes trail ↔ .wrote wire result ∈ trail := by
  constructor
  · intro member
    obtain ⟨event, member, same⟩ := List.mem_filterMap.mp member
    split at same <;> cases same
    exact member
  · intro member
    exact List.mem_filterMap.mpr ⟨_, member, rfl⟩

theorem Settled.of_heartbeat {trail : List Event} {result : Except Failure Outcome}
    (settled : Settled (.intent .heartbeat) trail result) (bytes : Nat) :
    result = .ok (.written bytes) ↔ ∃ wire, (wire, .ok bytes) ∈ writes trail := by
  cases settled with
  | unwritten none _ unwritten => simpa [none] using unwritten bytes
  | failed none => simp [none]
  | broke one => simp [one]
  | wrote suits one =>
    cases suits with
    | picture serves => exact absurd rfl serves.ne_intent.1
    | heartbeat => simp [one, Call.outcome, eq_comm]

namespace Sequence

variable {ω : Type} {sink : Sink ω} {n : Nat} {s : Sequence ω}

theorem Kept.mem_sincePublished (kept : s.Kept sink n) {number : Nat} {event other : Event}
    (asked : requests (s.pool.log.own number) = [.intent .heartbeat])
    (member : (number, event) ∈ s.pool.log)
    (within : (number, other) ∈ s.pool.log.sincePublished) :
    (number, event) ∈ s.pool.log.sincePublished := by
  apply Log.mem_sincePublished kept.sorted member within
  intro picture published
  have fit := kept.fits.event asked published
  exact fit.1 rfl

theorem Kept.settled (kept : s.Kept sink n) (rest : s.atRest = true) {number : Nat}
    (asked : requests (s.pool.log.own number) = [.intent .heartbeat]) {event : Event}
    (member : (number, event) ∈ s.pool.log) :
    ∃ result, s.pool.calls[number]? = some (.done result) ∧
      Settled (.intent .heartbeat) (s.pool.log.own number) result := by
  have inside : number < s.pool.calls.length := kept.sound.numbers _ member
  have made : s.pool.calls[number]? = some s.pool.calls[number] := List.getElem?_eq_getElem inside
  have done := Pool.allDone_iff.mp (atRest_iff.mp rest).1
  obtain ⟨result, same⟩ := done _ (List.getElem_mem inside)
  rw [same] at made
  obtain ⟨request, only, settled⟩ := kept.sound.along number _ made
  rw [asked] at only
  cases List.singleton_inj.mp only
  exact ⟨result, made, settled⟩

theorem Kept.wroteHeartbeat_iff (kept : s.Kept sink n) (rest : s.atRest = true) :
    s.pool.log.sincePublished.WroteHeartbeat n ↔ ∃ number bytes,
      (number, .asked (.intent .heartbeat)) ∈ s.pool.log.sincePublished ∧
        s.pool.calls[number]? = some (.done (.ok (.written bytes))) := by
  constructor
  · rintro ⟨number, wire, bytes, wrote, empty⟩
    have member := Log.mem_of_sincePublished wrote
    obtain ⟨request, asked, heartbeat, -⟩ := kept.fits number _ member
    cases heartbeat.mp empty
    obtain ⟨result, made, settled⟩ := kept.settled rest asked member
    have written : result = .ok (.written bytes) :=
      (settled.of_heartbeat bytes).mpr ⟨wire, mem_writes.mpr (Log.mem_own.mpr member)⟩
    have among : .intent .heartbeat ∈ requests (s.pool.log.own number) := by
      rw [asked]
      exact List.mem_singleton.mpr rfl
    have entry := Log.mem_own.mp (mem_requests.mp among)
    exact ⟨number, bytes, kept.mem_sincePublished asked entry wrote, written ▸ made⟩
  · rintro ⟨number, bytes, entry, made⟩
    have member := Log.mem_of_sincePublished entry
    have asked := kept.fits.requests_eq member
    obtain ⟨result, same, settled⟩ := kept.settled rest asked member
    rw [made] at same
    cases same
    obtain ⟨wire, wrote⟩ := (settled.of_heartbeat bytes).mp rfl
    have written := wrote_of_mem_writes wrote
    have fit := kept.fits.event asked written
    exact ⟨number, wire, bytes, kept.mem_sincePublished asked written entry, fit.1.mpr rfl⟩

/-- Of calls that are made one after the other on a new feed, whenever nothing is under way: while
the idle cycle lasts, a heartbeat was asked for since the last picture was published; and one has
been written since then exactly if one of those that were asked for came through. -/
theorem run_idle (sink : Sink ω) (settings : Settings) (geometry : Screen.Geometry)
    (encoder : Picture.Encoder) (reserve : Nat) (now : Int) (world : ω) (moves : List (Move ω)) :
    let s := (start (.new settings geometry encoder reserve now) world).run sink moves
    s.atRest = true →
      (s.pool.feed.upkeep.idle = true →
        ∃ number, (number, .asked (.intent .heartbeat)) ∈ s.pool.log.sincePublished) ∧
      (s.pool.log.sincePublished.WroteHeartbeat reserve ↔ ∃ number bytes,
        (number, .asked (.intent .heartbeat)) ∈ s.pool.log.sincePublished ∧
          s.pool.calls[number]? = some (.done (.ok (.written bytes)))) := by
  intro s rest
  have kept : s.Kept sink reserve :=
    (kept_new settings geometry encoder reserve now world).run moves
  refine ⟨fun lasts => ?_, kept.wroteHeartbeat_iff rest⟩
  rcases kept.cycle lasts with planned | asked
  · rw [(atRest_iff.mp rest).2] at planned
    cases planned
  · exact asked

def blank : Sequence Record :=
  start (.new {} { resolution := .uniform ⟨1, 1⟩ } (fun frame => .ok (90, frame.data)) 0 0) {}

def nineSeconds (viewer : Bool) : List (Move Record) :=
  .start 0 (.frame { data := [1, 2, 3, 4], width := 1, height := 1 }) ::
    List.replicate 4 (.advance 0 0) ++
  [.world { ready := viewer }, .control (millis 9000) .tick,
    .start (millis 9000) (.intent .resend)] ++ List.replicate 3 (.advance (millis 9000) 1) ++
  .start (millis 9000) (.intent .heartbeat) :: List.replicate 4 (.advance (millis 9000) 2)

theorem run_idle_with_viewer :
    let s := blank.run Record.sink (nineSeconds true)
    s.atRest = true ∧ s.pool.feed.upkeep.idle = true ∧
      s.pool.log.sincePublished.WroteHeartbeat 0 := by
  intro s
  have rest : s.atRest = true := by decide
  obtain ⟨-, wrote⟩ := run_idle Record.sink {} { resolution := .uniform ⟨1, 1⟩ }
    (fun frame => .ok (90, frame.data)) 0 0 {} (nineSeconds true) rest
  refine ⟨rest, by decide, wrote.mpr ⟨2, 13, ?_, rfl⟩⟩
  exact List.mem_of_getElem? (i := 1) rfl

/-- Without a viewer, the cycle lasts and no heartbeat was ever written. -/
theorem idle_without_heartbeat :
    ¬ ∀ moves, (blank.run Record.sink moves).atRest = true →
      (blank.run Record.sink moves).pool.feed.upkeep.idle = true →
      (blank.run Record.sink moves).pool.log.sincePublished.WroteHeartbeat 0 := by
  intro written
  have lasts := written (nineSeconds false) (by decide) (by decide)
  have log : (blank.run Record.sink (nineSeconds false)).pool.log.sincePublished =
      [(2, .asked (.intent .heartbeat)), (1, .asked (.intent .resend)),
        (0, .wrote [0, 0, 0, 1, 0, 0, 0, 1, 0, 0, 0, 4, 0, 1, 2, 3, 4] (.ok 17))] := rfl
  rw [log] at lasts
  obtain ⟨number, wire, bytes, wrote, empty⟩ := lasts
  simp only [List.mem_cons, Prod.mk.injEq, reduceCtorEq, and_false, false_or,
    List.not_mem_nil, or_false, Event.wrote.injEq] at wrote
  rw [wrote.2.1] at empty
  revert empty
  decide

end Sequence

end ScreenPreview.Stream
