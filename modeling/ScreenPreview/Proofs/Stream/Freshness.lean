import Mathlib.Data.List.Induction
import ScreenPreview.Proofs.Stream.Load
import ScreenPreview.Stream.Record

/-!
How old the frames are that a tick replays.

A frame that is older than the current load is refused where it comes in, but a load that begins
later leaves the frame that is held back alone. So a replayed frame is no older than the load in
which it came, and it is no older than the current one exactly if the last load that began since it
came is not newer than the frame (`run_replays_fresh`).
-/
namespace ScreenPreview.Stream

variable {ω : Type}

def Move.restart? : Move ω → Option Int
  | .control _ (.beginLoad stamp) => some stamp
  | _ => none

def lastRestart (moves : List (Move ω)) : Option Int := (moves.filterMap Move.restart?).getLast?

theorem lastRestart_concat (moves : List (Move ω)) (move : Move ω) :
    lastRestart (moves ++ [move]) = move.restart?.or (lastRestart moves) := by
  rw [lastRestart, List.filterMap_append, List.getLast?_append]
  cases restarts : move.restart? <;> simp [restarts, lastRestart]

namespace Load

variable {l : Load} {held : Upkeep.HeldFrame}

theorem stamp_move (l : Load) (move : Move ω) :
    (l.move move).stamp = move.restart?.getD l.stamp := by
  have offered (pixels : Picture.Pixels) : (l.offer pixels).stamp = l.stamp := by
    unfold offer
    split <;> rfl
  have ticked : l.tick.stamp = l.stamp := by
    unfold tick
    split <;> rfl
  cases move with
  | start now request =>
    cases request with
    | loadFrame pixels => exact offered pixels
    | _ => rfl
  | advance now number => rfl
  | control now change =>
    cases change with
    | tick => exact ticked
    | _ => rfl
  | world world => rfl

theorem held_move {move : Move ω} (holds : (l.move move).held = some held) :
    (∃ instant pixels, move = .start instant (.loadFrame pixels) ∧
        l.verdict? pixels = some .cached ∧ held = pixels.toHeld) ∨
      l.held = some held := by
  cases move with
  | start now request =>
    cases request with
    | loadFrame pixels =>
      by_cases cached : l.verdict? pixels = some .cached
      · simp only [move, offer, cached, if_true, Option.some.injEq] at holds
        exact Or.inl ⟨now, pixels, rfl, cached, holds.symm⟩
      · simp only [move, offer, cached, if_false] at holds
        exact Or.inr holds
    | _ => exact Or.inr holds
  | advance now number => exact Or.inr holds
  | control now change =>
    refine Or.inr ?_
    cases change with
    | tick =>
      simp only [move, tick] at holds
      split at holds
      · cases holds
      · exact holds
    | _ => exact holds
  | world world => exact Or.inr holds

/-- A frame that is held back came in some move that found it no older than its load, and the load
is now the last one that began since. -/
theorem held_since {moves : List (Move ω)} (holds : (moves.foldl move {}).held = some held) :
    ∃ early instant pixels late, moves = early ++ .start instant (.loadFrame pixels) :: late ∧
      held = pixels.toHeld ∧ (early.foldl move {}).verdict? pixels = some .cached ∧
      (moves.foldl move {}).stamp = (lastRestart late).getD (early.foldl move {}).stamp := by
  induction moves using List.reverseRecOn with
  | nil => cases holds
  | append_singleton moves next ih =>
    rw [List.foldl_append, List.foldl_cons, List.foldl_nil] at holds ⊢
    have stamp := (moves.foldl move {}).stamp_move next
    rcases held_move holds with ⟨instant, pixels, rfl, cached, same⟩ | before
    · exact ⟨moves, instant, pixels, [], rfl, same, cached, stamp⟩
    · obtain ⟨early, instant, pixels, late, rfl, same, cached, since⟩ := ih before
      refine ⟨early, instant, pixels, late ++ [next], by simp, same, cached, ?_⟩
      rw [stamp, since, lastRestart_concat]
      cases next.restart? <;> rfl

end Load

namespace Pool

/-- However calls and controls are interleaved on a new feed: a frame that a tick plans to replay
came as a load frame that was no older than the load of then, and it is no older than the load of
now if and only if the last load that began since it came is not newer than it. -/
theorem run_replays_fresh (sink : Sink ω) (settings : Settings) (geometry : Screen.Geometry)
    (encoder : Picture.Encoder) (reserve : Nat) (now : Int) (world : ω) (moves : List (Move ω))
    (clock : Int) (held : Upkeep.HeldFrame) :
    let p := start (.new settings geometry encoder reserve now) world
    .replay held ∈ ((p.run sink moves).feed.tick clock).1 →
      ∃ early instant pixels late, moves = early ++ .start instant (.loadFrame pixels) :: late ∧
        held = pixels.toHeld ∧ (p.run sink early).feed.upkeep.loadStamp ≤ held.timestamp ∧
        ((p.run sink moves).feed.upkeep.loadStamp ≤ held.timestamp ↔
          ∀ stamp ∈ lastRestart late, stamp ≤ held.timestamp) := by
  intro p planned
  have load (some_moves : List (Move ω)) :
      (p.run sink some_moves).feed.load = some_moves.foldl Load.move {} :=
    p.load_run sink some_moves
  have due : (p.run sink moves).feed.load.replay? = some held := Upkeep.replay_mem_plan.mp planned
  have holds : (moves.foldl Load.move {}).held = some held := by
    rw [load, Load.replay?] at due
    split at due
    · exact due
    · cases due
  obtain ⟨early, instant, pixels, late, split, same, cached, since⟩ := Load.held_since holds
  have fresh : (early.foldl Load.move {}).stamp ≤ held.timestamp := by
    rw [same]
    exact (Load.verdict?_eq_cached_iff.mp cached).2.1
  refine ⟨early, instant, pixels, late, split, same, ?_, ?_⟩
  · rw [← load early] at fresh
    exact fresh
  · rw [← load moves] at since
    rw [show (p.run sink moves).feed.upkeep.loadStamp = _ from since]
    cases lastRestart late with
    | none => simpa using fresh
    | some stamp => simp

def madeAt (timestamp : Int) : Picture.Pixels :=
  { data := [1, 2, 3, 4], width := 1, height := 1, timestamp }

def quiet : Pool Record :=
  start (.new {} { resolution := .uniform ⟨1, 1⟩ } (fun frame => .ok (90, frame.data)) 0 0) {}

def secondLoad (stamp : Int) : List (Move Record) :=
  [.control 0 (.beginLoad 0), .start 0 (.loadFrame (madeAt 10)), .control 0 (.beginLoad stamp),
    .control 0 (.loadState .finished)]

theorem run_replays_fresh_in_second_load :
    .replay (madeAt 10).toHeld ∈ ((quiet.run Record.sink (secondLoad 5)).feed.tick 0).1 ∧
    (quiet.run Record.sink (secondLoad 5)).feed.upkeep.loadStamp = 5 ∧
    ∃ early instant pixels late,
      secondLoad 5 = early ++ .start instant (.loadFrame pixels) :: late ∧
        (madeAt 10).toHeld = pixels.toHeld ∧
        (quiet.run Record.sink early).feed.upkeep.loadStamp ≤ (madeAt 10).toHeld.timestamp ∧
        ((quiet.run Record.sink (secondLoad 5)).feed.upkeep.loadStamp ≤
            (madeAt 10).toHeld.timestamp ↔
          ∀ stamp ∈ lastRestart late, stamp ≤ (madeAt 10).toHeld.timestamp) := by
  have planned : .replay (madeAt 10).toHeld ∈
      ((quiet.run Record.sink (secondLoad 5)).feed.tick 0).1 := by decide
  exact ⟨planned, rfl, run_replays_fresh Record.sink {} { resolution := .uniform ⟨1, 1⟩ }
    (fun frame => .ok (90, frame.data)) 0 0 {} (secondLoad 5) 0 (madeAt 10).toHeld planned⟩

/-- The second load is newer than the frame, which is replayed all the same. -/
theorem second_load_replays_stale :
    ¬ ∀ held, .replay held ∈ ((quiet.run Record.sink (secondLoad 100)).feed.tick 0).1 →
      (quiet.run Record.sink (secondLoad 100)).feed.upkeep.loadStamp ≤ held.timestamp := by
  intro fresh
  have planned : .replay (madeAt 10).toHeld ∈
      ((quiet.run Record.sink (secondLoad 100)).feed.tick 0).1 := by decide
  have := fresh (madeAt 10).toHeld planned
  revert this
  decide

end Pool

end ScreenPreview.Stream
