import ScreenPreview.Proofs.Stream.Freshness

/-!
Which frames are replayed, and how often.

A tick replays the frame that was cached last, once its load has finished and if that frame was not
replayed before; a frame that was answered in any other way is never replayed (`run_replays_once`).
What was cached is told from the answers that the calls have in the end.
-/
namespace ScreenPreview.Stream

def Upkeep.Intent.replayed? : Upkeep.Intent → Option Upkeep.HeldFrame
  | replay frame => some frame
  | _ => none

theorem Upkeep.filterMap_replayed? (u : Upkeep) (now : Int) (hasPicture : Bool) :
    (u.plan now hasPicture).1.filterMap Intent.replayed? = u.load.replay?.toList := by
  obtain ⟨others, planned, different⟩ := u.plan_eq now hasPicture
  have none : others.filterMap Intent.replayed? = [] := by
    rw [List.filterMap_eq_nil_iff]
    intro due member
    cases due with
    | replay held => exact absurd member (different held)
    | _ => rfl
  rw [planned, List.filterMap_append, none, List.append_nil]
  cases u.load.replay? <;> rfl

def Call.isCached : Call → Bool
  | done (.ok .cached) => true
  | _ => false

theorem Call.Section.isCached_eq {ω : Type} {sink : Sink ω} {f g : Feed} {c d : Call}
    {events : List Event} (taken : Section sink c f events d g) : d.isCached = c.isCached := by
  cases taken with
  | encode job =>
    unfold encoded
    split <;> cases job.route <;> rfl
  | packed packing => cases packing <;> rfl
  | unpacked packing => cases packing <;> rfl
  | record purpose =>
    cases purpose with
    | picture job => cases route : job.route <;> simp [isCached, outcome, route]
    | _ => rfl
  | _ => rfl

theorem Call.isCached_loadFrame (f : Feed) (now : Int) (pixels : Picture.Pixels) :
    (loadFrame f now pixels).1.isCached = true ↔ f.load.verdict? pixels = some .cached := by
  unfold loadFrame
  cases valid : pixels.check with
  | error failure => simp [isCached, Load.verdict?, valid]
  | ok _ =>
    rw [(f.admitLoad_eq valid).1]
    rcases f.admitLoad pixels with ⟨verdict, g⟩
    cases verdict <;> simp [isCached]

namespace Pool

variable {ω : Type}

def cached (p : Pool ω) (number : Nat) : Bool := p.calls[number]?.any Call.isCached

theorem cached_step (sink : Sink ω) (p : Pool ω) (move : Move ω) {number : Nat}
    (made : number < p.calls.length) : (p.step sink move).cached number = p.cached number := by
  cases move with
  | start now request =>
    rw [step_start, cached, List.getElem?_append_left made]
    rfl
  | advance now other =>
    rcases p.step_advance sink now other with same | ⟨c, d, _, _, _, found, -, taken, step⟩
    · rw [same]
    · rw [step, cached, cached, List.getElem?_set]
      by_cases own : other = number
      · subst own
        rw [if_pos rfl, if_pos made, found]
        exact taken.isCached_eq
      · rw [if_neg own]
  | control now change =>
    rcases p.step_control sink now change with same | ⟨-, step⟩
    · rw [same]
    · rw [step]
      rfl
  | world world => rfl

end Pool

/-! ### Histories -/

inductive Sight where
  | offered (number : Nat) (pixels : Picture.Pixels)
  | ticked (state : Screen.LoadState) (asked : List Upkeep.Intent)
  deriving DecidableEq

namespace Sight

/-- The frame that was cached last, unless a frame was replayed since, with the number of its
call. -/
def awaiting (cached : Nat → Bool) : List Sight → Option (Nat × Picture.Pixels)
  | [] => none
  | offered number pixels :: older =>
    if cached number then some (number, pixels) else awaiting cached older
  | ticked _ asked :: older =>
    if asked.filterMap (·.replayed?) = [] then awaiting cached older else none

def replays (cached : Nat → Bool) : List Sight → List Nat
  | [] => []
  | offered .. :: older => replays cached older
  | ticked _ asked :: older =>
    if asked.filterMap (·.replayed?) = [] then replays cached older
    else (awaiting cached older).toList.map (·.1) ++ replays cached older

variable {cached agreed : Nat → Bool} {sights : List Sight} {number : Nat}
  {pixels : Picture.Pixels}

theorem offered_of_awaiting (awaits : awaiting cached sights = some (number, pixels)) :
    offered number pixels ∈ sights ∧ cached number = true := by
  induction sights with
  | nil => cases awaits
  | cons sight older ih =>
    have earlier (awaits : awaiting cached older = some (number, pixels)) :
        offered number pixels ∈ sight :: older ∧ cached number = true :=
      (ih awaits).imp_left (List.mem_cons_of_mem _)
    unfold awaiting at awaits
    cases sight with
    | offered other frame =>
      simp only at awaits
      split at awaits
      · cases awaits
        exact ⟨List.mem_cons_self, ‹_›⟩
      · exact earlier awaits
    | ticked state asked =>
      simp only at awaits
      split at awaits
      · exact earlier awaits
      · cases awaits

theorem offered_of_replays (replayed : number ∈ replays cached sights) :
    (∃ pixels, offered number pixels ∈ sights) ∧ cached number = true := by
  induction sights with
  | nil => cases replayed
  | cons sight older ih =>
    have earlier (replayed : number ∈ replays cached older) :
        (∃ pixels, offered number pixels ∈ sight :: older) ∧ cached number = true :=
      (ih replayed).imp_left (Exists.imp fun _ => List.mem_cons_of_mem _)
    unfold replays at replayed
    cases sight with
    | offered other frame => exact earlier replayed
    | ticked state asked =>
      simp only at replayed
      split at replayed
      · exact earlier replayed
      · rcases List.mem_append.mp replayed with now | before
        · obtain ⟨⟨_, pixels⟩, awaits, rfl⟩ := List.mem_map.mp now
          obtain ⟨member, answered⟩ := offered_of_awaiting (Option.mem_toList.mp awaits)
          exact ⟨⟨pixels, List.mem_cons_of_mem _ member⟩, answered⟩
        · exact earlier before

theorem awaiting_congr
    (agree : ∀ number pixels, offered number pixels ∈ sights → agreed number = cached number) :
    awaiting agreed sights = awaiting cached sights := by
  induction sights with
  | nil => rfl
  | cons sight older ih =>
    have rest := ih fun number pixels member => agree number pixels (List.mem_cons_of_mem _ member)
    cases sight with
    | offered number pixels => rw [awaiting, awaiting, agree number pixels List.mem_cons_self, rest]
    | ticked state asked => rw [awaiting, awaiting, rest]

theorem replays_congr
    (agree : ∀ number pixels, offered number pixels ∈ sights → agreed number = cached number) :
    replays agreed sights = replays cached sights := by
  induction sights with
  | nil => rfl
  | cons sight older ih =>
    have earlier : ∀ number pixels, offered number pixels ∈ older → agreed number = cached number :=
      fun number pixels member => agree number pixels (List.mem_cons_of_mem _ member)
    cases sight with
    | offered number pixels => exact ih earlier
    | ticked state asked => rw [replays, replays, ih earlier, awaiting_congr earlier]

/-- Every tick replays the frame that awaits it if the load has finished, and no frame comes
twice. -/
structure Replayed (cached : Nat → Bool) (sights : List Sight) : Prop where
  ticks : ∀ state asked older, ticked state asked :: older <:+ sights →
    asked.filterMap (·.replayed?) =
      if state = .finished then ((awaiting cached older).map (·.2.toHeld)).toList else []
  once : (replays cached sights).Pairwise (· > ·)
  fresh : ∀ frame ∈ awaiting cached sights, ∀ number ∈ replays cached sights, number < frame.1

theorem Replayed.congr (replayed : Replayed cached sights)
    (agree : ∀ number pixels, offered number pixels ∈ sights → agreed number = cached number) :
    Replayed agreed sights := by
  obtain ⟨ticks, once, fresh⟩ := replayed
  rw [← replays_congr agree] at once fresh
  rw [← awaiting_congr agree] at fresh
  refine ⟨?_, once, fresh⟩
  intro state asked older suffix
  have same : awaiting agreed older = awaiting cached older := awaiting_congr fun number pixels
      member => agree number pixels (suffix.subset (List.mem_cons_of_mem _ member))
  rw [same]
  exact ticks state asked older suffix

theorem Replayed.offered (replayed : Replayed cached sights) (number : Nat)
    (pixels : Picture.Pixels) (newest : ∀ other ∈ replays cached sights, other < number) :
    Replayed cached (.offered number pixels :: sights) := by
  obtain ⟨ticks, once, fresh⟩ := replayed
  refine ⟨?_, once, ?_⟩
  · intro state asked older suffix
    rcases List.suffix_cons_iff.mp suffix with whole | earlier
    · cases (List.cons.inj whole).1
    · exact ticks state asked older earlier
  · intro frame awaits
    rw [Option.mem_def, awaiting] at awaits
    split at awaits
    · cases awaits
      exact newest
    · exact fresh frame awaits

theorem Replayed.ticked (replayed : Replayed cached sights) {state : Screen.LoadState}
    {asked : List Upkeep.Intent} (plays : asked.filterMap (·.replayed?) =
      if state = .finished then ((awaiting cached sights).map (·.2.toHeld)).toList else []) :
    Replayed cached (.ticked state asked :: sights) := by
  obtain ⟨ticks, once, fresh⟩ := replayed
  refine ⟨?_, ?_, ?_⟩
  · intro other_state other_asked older suffix
    rcases List.suffix_cons_iff.mp suffix with whole | earlier
    · cases whole
      exact plays
    · exact ticks other_state other_asked older earlier
  · rw [replays]
    split
    · exact once
    · cases awaits : awaiting cached sights with
      | none => exact once
      | some frame => exact List.pairwise_cons.mpr ⟨fresh frame awaits, once⟩
  · intro frame awaits number member
    rw [Option.mem_def, awaiting] at awaits
    split at awaits
    · rw [replays, if_pos ‹_›] at member
      exact fresh frame awaits number member
    · cases awaits

end Sight

structure Chronicle (ω : Type) where
  pool : Pool ω
  sights : List Sight := []

namespace Chronicle

variable {ω : Type} {sink : Sink ω} {c : Chronicle ω}

def start (feed : Feed) (world : ω) : Chronicle ω := { pool := .start feed world }

def sights? (p : Pool ω) : Move ω → List Sight
  | .start _ (.loadFrame pixels) => [.offered p.calls.length pixels]
  | .control now .tick => [.ticked p.feed.upkeep.loadState (p.feed.tick now).1]
  | _ => []

def step (sink : Sink ω) (c : Chronicle ω) (move : Move ω) : Chronicle ω :=
  ⟨c.pool.step sink move, sights? c.pool move ++ c.sights⟩

def run (sink : Sink ω) (c : Chronicle ω) (moves : List (Move ω)) : Chronicle ω :=
  moves.foldl (step sink) c

structure Kept (c : Chronicle ω) : Prop where
  numbers : ∀ number pixels, .offered number pixels ∈ c.sights → number < c.pool.calls.length
  held : c.pool.feed.load.held =
    (Sight.awaiting c.pool.cached c.sights).map (·.2.toHeld)
  replayed : Sight.Replayed c.pool.cached c.sights

theorem Kept.agree (kept : c.Kept) (sink : Sink ω) (move : Move ω) (number : Nat)
    (pixels : Picture.Pixels) (member : .offered number pixels ∈ c.sights) :
    (c.pool.step sink move).cached number = c.pool.cached number :=
  c.pool.cached_step sink move (kept.numbers number pixels member)

theorem Kept.quiet (kept : c.Kept) {move : Move ω} (unseen : sights? c.pool move = [])
    (same : (c.pool.step sink move).feed.load.held = c.pool.feed.load.held) :
    (c.step sink move).Kept := by
  have agree := kept.agree sink move
  rw [Chronicle.step, unseen, List.nil_append]
  refine ⟨?_, ?_, kept.replayed.congr agree⟩
  · intro number pixels member
    have before := kept.numbers number pixels member
    exact Nat.lt_of_lt_of_le before (c.pool.length_calls_step sink move)
  · rw [same, kept.held, Sight.awaiting_congr agree]

theorem Kept.offered (kept : c.Kept) (now : Int) (pixels : Picture.Pixels) :
    (c.step sink (.start now (.loadFrame pixels))).Kept := by
  have agree := kept.agree sink (.start now (.loadFrame pixels))
  have load := c.pool.load_step sink (.start now (.loadFrame pixels))
  have answer : (c.pool.step sink (.start now (.loadFrame pixels))).cached c.pool.calls.length =
      true ↔ c.pool.feed.load.verdict? pixels = some .cached := by
    rw [← Call.isCached_loadFrame c.pool.feed now pixels, Pool.step_start, Pool.cached,
      List.getElem?_concat_length]
    rfl
  refine ⟨?_, ?_, ?_⟩
  · intro number other member
    rw [Chronicle.step, Pool.step_start, List.length_append]
    rcases List.mem_cons.mp member with newest | older
    · cases newest
      exact Nat.lt_succ_self _
    · exact Nat.lt_succ_of_lt (kept.numbers number other older)
  · have holds : (c.pool.step sink (.start now (.loadFrame pixels))).feed.load.held =
        (c.pool.feed.load.offer pixels).held := congrArg Load.held load
    simp only [Chronicle.step, holds, sights?, List.singleton_append, Sight.awaiting, answer,
      Load.offer]
    split
    · rfl
    · rw [Sight.awaiting_congr agree]
      exact kept.held
  · refine (kept.replayed.congr agree).offered _ pixels fun number member => ?_
    obtain ⟨⟨other, offered⟩, -⟩ := Sight.offered_of_replays member
    exact kept.numbers number other offered

theorem Kept.ticked (kept : c.Kept) (now : Int) : (c.step sink (.control now .tick)).Kept := by
  have agree := kept.agree sink (.control now .tick)
  have load := c.pool.load_step sink (.control now .tick)
  have plays : (c.pool.feed.tick now).1.filterMap (·.replayed?) =
      if c.pool.feed.load.state = .finished
        then ((Sight.awaiting c.pool.cached c.sights).map (·.2.toHeld)).toList else [] := by
    rw [← kept.held]
    exact (c.pool.feed.upkeep.filterMap_replayed? now c.pool.feed.lastPicture.isSome).trans
      (apply_ite Option.toList _ _ _)
  refine ⟨?_, ?_, ?_⟩
  · intro number pixels member
    rcases List.mem_cons.mp member with tick | older
    · cases tick
    · exact Nat.lt_of_lt_of_le (kept.numbers number pixels older) (c.pool.length_calls_step sink _)
  · have holds : (c.pool.step sink (.control now .tick)).feed.load.held =
        c.pool.feed.load.tick.held := congrArg Load.held load
    simp only [Chronicle.step, holds, sights?, List.singleton_append, Sight.awaiting, plays]
    rw [Sight.awaiting_congr agree]
    have held := kept.held
    -- A tick of a finished load lets go of the frame exactly if it replays it.
    by_cases finished : c.pool.feed.load.state = .finished
    · rw [if_pos finished, Load.tick, if_pos finished]
      cases Sight.awaiting c.pool.cached c.sights <;> rfl
    · rw [if_neg finished, if_pos rfl, Load.tick, if_neg finished]
      exact held
  · refine (kept.replayed.congr agree).ticked ?_
    rw [Sight.awaiting_congr agree]
    exact plays

theorem Kept.step (kept : c.Kept) (move : Move ω) : (c.step sink move).Kept := by
  have load := congrArg Load.held (c.pool.load_step sink move)
  cases move with
  | start now request =>
    cases request with
    | loadFrame pixels => exact kept.offered now pixels
    | _ => exact kept.quiet rfl load
  | control now change =>
    cases change with
    | tick => exact kept.ticked now
    | _ => exact kept.quiet rfl load
  | _ => exact kept.quiet rfl load

theorem kept_start (feed : Feed) (world : ω) (empty : feed.load.held = none) :
    (start feed world).Kept := by
  refine ⟨?_, empty, ?_, List.Pairwise.nil, ?_⟩
  · intro number pixels member
    cases member
  · intro state asked older suffix
    cases List.suffix_nil.mp suffix
  · intro frame awaits
    cases awaits

theorem Kept.run (kept : c.Kept) (moves : List (Move ω)) : (c.run sink moves).Kept := by
  induction moves generalizing c with
  | nil => exact kept
  | cons move rest ih => exact ih (kept.step move)

theorem pool_run (sink : Sink ω) (c : Chronicle ω) (moves : List (Move ω)) :
    (c.run sink moves).pool = c.pool.run sink moves := by
  induction moves generalizing c with
  | nil => rfl
  | cons move rest ih => exact ih (c.step sink move)

/-- However calls and controls are interleaved on a new feed: a tick replays one frame, the one that
was cached last, if its load has finished and that frame was cached since the last replay, and none
otherwise; the calls whose frames are replayed were all answered that the frame is cached, and come
in the order of their numbers, so none of them twice. -/
theorem run_replays_once (sink : Sink ω) (settings : Settings) (geometry : Screen.Geometry)
    (encoder : Picture.Encoder) (reserve : Nat) (now : Int) (world : ω) (moves : List (Move ω)) :
    let p := (Pool.start (.new settings geometry encoder reserve now) world).run sink moves
    let sights := ((start (.new settings geometry encoder reserve now) world).run sink moves).sights
    (∀ state asked older, .ticked state asked :: older <:+ sights →
      asked.filterMap (·.replayed?) =
        if state = .finished then ((Sight.awaiting p.cached older).map (·.2.toHeld)).toList
        else []) ∧
    (∀ number ∈ Sight.replays p.cached sights, p.cached number = true) ∧
      (Sight.replays p.cached sights).Pairwise (· > ·) := by
  intro p sights
  have kept : ((start (.new settings geometry encoder reserve now) world).run sink moves).Kept :=
    (kept_start _ world rfl).run moves
  have same := pool_run sink (start (.new settings geometry encoder reserve now) world) moves
  have replayed : Sight.Replayed p.cached sights := congrArg Pool.cached same ▸ kept.replayed
  exact ⟨replayed.ticks, fun number member => (Sight.offered_of_replays member).2, replayed.once⟩

open Pool (madeAt)

def twoLoads : List (Move Record) :=
  [.start 0 (.loadFrame (madeAt 1)), .control 0 .tick, .control 0 (.loadState .finished),
    .control 0 .tick, .control 0 .tick, .control 0 (.beginLoad 2), .start 0 (.loadFrame (madeAt 1)),
    .start 0 (.loadFrame (madeAt 2)), .start 0 (.loadFrame (madeAt 3)),
    .control 0 (.loadState .finished), .start 0 (.loadFrame (madeAt 4)), .control 0 .tick]

theorem run_replays_once_in_two_loads :
    let feed : Feed :=
      .new {} { resolution := .uniform ⟨1, 1⟩ } (fun frame => .ok (90, frame.data)) 0 0
    let p := (Pool.start feed {}).run Record.sink twoLoads
    let sights := ((start feed {}).run Record.sink twoLoads).sights
    sights.head? = some (.ticked .finished [.replay (madeAt 3).toHeld]) ∧
      Sight.replays p.cached sights = [3, 0] ∧
      (Sight.replays p.cached sights).Pairwise (· > ·) := by
  intro feed p sights
  obtain ⟨-, -, once⟩ := run_replays_once Record.sink {} { resolution := .uniform ⟨1, 1⟩ }
    (fun frame => .ok (90, frame.data)) 0 0 {} twoLoads
  exact ⟨by decide, by decide, once⟩

end Chronicle

end ScreenPreview.Stream
