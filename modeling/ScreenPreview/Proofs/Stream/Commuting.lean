import ScreenPreview.Proofs.Stream.Locks

/-!
A packing taken at once.

A call that holds the outlet has it for itself, and with it the world of the sink, so nothing that
happens in between sees whether it has taken its next section yet (`step_put`). A heartbeat is
packed a section behind the making of its header. It may as well be packed right there: only what
the world does by itself stays in front (`run_at_once`).
-/
namespace ScreenPreview.Stream

variable {ω : Type} {sink : Sink ω}

/-! ### Sections without the outlet -/

namespace Feed

theorem encode_outlet (f : Feed) (outlet : Outlet) (frame : Picture.Pixels) :
    { f with outlet }.encode frame =
      ((f.encode frame).1, { (f.encode frame).2 with outlet }) := by
  simp only [encode]
  cases f.encoder frame.trimmed <;> rfl

theorem admitLive_outlet (f : Feed) (outlet : Outlet) (now : Int) (change : Int32) :
    { f with outlet }.admitLive now change =
      ((f.admitLive now change).1, { (f.admitLive now change).2 with outlet }) := by
  unfold admitLive
  split
  · rfl
  · simp only
    split
    · rfl
    · split <;> rfl

theorem admitLoad_outlet (f : Feed) (outlet : Outlet) (pixels : Picture.Pixels) :
    { f with outlet }.admitLoad pixels =
      ((f.admitLoad pixels).1, { (f.admitLoad pixels).2 with outlet }) := by
  unfold admitLoad
  split
  · rfl
  · simp only
    split <;> rfl

end Feed

theorem Request.enter_outlet (request : Request) (now : Int) (f : Feed) (outlet : Outlet) :
    request.enter now { f with outlet } =
      ((request.enter now f).1, { (request.enter now f).2 with outlet }) := by
  cases request with
  | frame pixels =>
    simp only [enter, Call.frame, f.admitLive_outlet outlet]
    split
    · rfl
    · rcases f.admitLive now pixels.change with ⟨admission, g⟩
      cases admission <;> rfl
  | loadFrame pixels =>
    simp only [enter, Call.loadFrame, f.admitLoad_outlet outlet]
    split
    · rfl
    · rcases f.admitLoad pixels with ⟨admission, g⟩
      cases admission <;> rfl
  | intent => rfl
  | fit => rfl

theorem Control.apply_outlet (now : Int) (f : Feed) (outlet : Outlet) {change : Control}
    (free : change.needs = none) :
    change.apply now { f with outlet } = { change.apply now f with outlet } := by
  cases change with
  | partsOnly on => cases free
  | _ => rfl

theorem Call.step_idle (sink : Sink ω) (now : Int) {c : Call} (idle : ¬ c.Uses .outlet) (f : Feed) :
    ∃ (d : Call) (g : Feed), ∀ (outlet : Outlet) (world : ω),
      c.step sink now { f with outlet } world = (d, { g with outlet }, world) := by
  cases c with
  | encode job =>
    refine ⟨encoded job (f.encode job.frame).1, (f.encode job.frame).2, ?_⟩
    intro outlet world
    rw [step, f.encode_outlet outlet]
  | publish => exact absurd (Or.inr rfl) idle
  | repack => exact absurd (Or.inr rfl) idle
  | heartbeat => exact absurd (Or.inr rfl) idle
  | resize => exact absurd (Or.inr rfl) idle
  | packHeartbeat => exact absurd (Or.inl List.mem_cons_self) idle
  | write purpose => exact absurd (Or.inl (by cases purpose <;> simp [holds])) idle
  | record purpose => exact absurd (Or.inl (by cases purpose <;> simp [holds])) idle
  | release job previous => exact ⟨_, f.release job.admitted previous, fun _ _ => rfl⟩
  | accept job => exact ⟨_, f.acceptLoad job.admitted, fun _ _ => rfl⟩
  | done => exact ⟨_, f, fun _ _ => rfl⟩

namespace Move

def ofWorld : Move ω → Bool
  | world _ => true
  | _ => false

/-- Neither a section of the call with the number nor what the world does by itself. -/
def Apart (number : Nat) : Move ω → Prop
  | start .. => True
  | advance _ other => other ≠ number
  | control .. => True
  | world _ => False

end Move

namespace Pool

variable {p : Pool ω} {number : Nat} {c d : Call} {move : Move ω}

/-! ### Moves around a call that holds the outlet -/

/-- The pool in which a call stands elsewhere, with another outlet and another world. -/
def put (p : Pool ω) (number : Nat) (c : Call) (outlet : Outlet) (world : ω) : Pool ω :=
  { p with feed := { p.feed with outlet }, world, calls := p.calls.set number c }

theorem put_self (made : p.calls[number]? = some c) :
    p.put number c p.feed.outlet p.world = p := by
  obtain ⟨inside, rfl⟩ := List.getElem?_eq_some_iff.mp made
  rw [put, List.set_getElem_self]

theorem free_put (made : p.calls[number]? = some c) (same : d.holds = c.holds) (outlet : Outlet)
    (world : ω) (lock : Option Call.Lock) :
    (p.put number d outlet world).free lock = p.free lock := by
  have holds : (p.calls.set number d).map Call.holds = p.calls.map Call.holds := by
    obtain ⟨inside, rfl⟩ := List.getElem?_eq_some_iff.mp made
    rw [List.map_set, same, ← List.getElem_map Call.holds, List.set_getElem_self]
    simpa using inside
  have all (calls : List Call) :
      (calls.all fun c => lock.all fun lock => !c.holds.contains lock) =
        (calls.map Call.holds).all fun held => lock.all fun lock => !held.contains lock := by
    rw [List.all_map]
    rfl
  rw [free, free, all, all]
  exact congrArg (List.all · _) holds

theorem step_put (sink : Sink ω) (exclusive : p.Exclusive) (made : p.calls[number]? = some c)
    (held : .outlet ∈ c.holds) (same : d.holds = c.holds) (apart : move.Apart number)
    (outlet : Outlet) (world : ω) :
    (p.put number d outlet world).step sink move =
      (p.step sink move).put number d outlet world := by
  obtain ⟨inside, -⟩ := List.getElem?_eq_some_iff.mp made
  cases move with
  | start now request =>
    rw [step_start, step_start, put, request.enter_outlet, List.length_set, put,
      List.set_append_left _ _ inside]
  | advance now other =>
    have there : (p.put number d outlet world).calls[other]? = p.calls[other]? :=
      List.getElem?_set_ne (Ne.symm apart)
    simp only [step, there]
    cases other_made : p.calls[other]? with
    | none => rfl
    | some e =>
      simp only [free_put made same]
      cases free : p.free e.needs with
      | false => rfl
      | true =>
        have idle : ¬ e.Uses .outlet := exclusive.apart other_made free made (Ne.symm apart) held
        obtain ⟨e', g, taken⟩ := Call.step_idle sink.watched now idle p.feed
        have here : e.step sink.watched now p.feed (p.world, []) =
            (e', { g with outlet := p.feed.outlet }, (p.world, [])) := taken _ _
        have shows : e.shows { p.feed with outlet } = e.shows p.feed := by
          cases e <;> first | rfl | exact absurd (Or.inr rfl) idle
        simp only [if_true, put, taken outlet (world, []), here, shows,
          List.set_comm _ _ (Ne.symm apart)]
  | control now change =>
    simp only [step, free_put made same]
    cases free : p.free change.needs with
    | false => rfl
    | true =>
      have unneeded : change.needs = none := by
        cases change with
        | partsOnly on => exact absurd held (free_iff.mp free c (List.mem_of_getElem? made) _ rfl)
        | _ => rfl
      simp only [if_true, put, change.apply_outlet now p.feed outlet unneeded]
  | world world => exact apart.elim

theorem step_held (sink : Sink ω) (exclusive : p.Exclusive) (made : p.calls[number]? = some c)
    (held : .outlet ∈ c.holds) (apart : move.Apart number) :
    (p.step sink move).calls[number]? = some c ∧
      (p.step sink move).feed.outlet = p.feed.outlet ∧ (p.step sink move).world = p.world := by
  obtain ⟨inside, -⟩ := List.getElem?_eq_some_iff.mp made
  have longer := Nat.lt_of_lt_of_le inside (p.length_calls_step sink move)
  have same := step_put sink exclusive made held rfl apart p.feed.outlet p.world
  rw [put_self made] at same
  rw [same]
  exact ⟨List.getElem?_set_self longer, rfl, rfl⟩

theorem run_put {moves : List (Move ω)} (sink : Sink ω) (exclusive : p.Exclusive)
    (made : p.calls[number]? = some c) (held : .outlet ∈ c.holds) (same : d.holds = c.holds)
    (apart : ∀ move ∈ moves, move.Apart number) (outlet : Outlet) (world : ω) :
    (p.put number d outlet world).run sink moves = (p.run sink moves).put number d outlet world ∧
      (p.run sink moves).calls[number]? = some c ∧
      (p.run sink moves).feed.outlet = p.feed.outlet ∧ (p.run sink moves).world = p.world := by
  induction moves generalizing p with
  | nil => exact ⟨rfl, made, rfl, rfl⟩
  | cons move rest ih =>
    obtain ⟨first, others⟩ := List.forall_mem_cons.mp apart
    obtain ⟨there, outlet_eq, world_eq⟩ := step_held sink exclusive made held first
    obtain ⟨same_rest, later, late_outlet, late_world⟩ :=
      ih (exclusive_step exclusive move) there others
    refine ⟨?_, later, late_outlet.trans outlet_eq, late_world.trans world_eq⟩
    calc (p.put number d outlet world).run sink (move :: rest)
        = ((p.step sink move).put number d outlet world).run sink rest :=
          congrArg (run sink · rest) (step_put sink exclusive made held same first outlet world)
      _ = (p.run sink (move :: rest)).put number d outlet world := same_rest

/-! ### What the world does by itself -/

theorem step_world (made : p.calls[number]? = some c) (world : ω) :
    p.step sink (.world world) = p.put number c p.feed.outlet world :=
  congrArg (fun q : Pool ω => { q with world }) (put_self made).symm

theorem step_world_comm (exclusive : p.Exclusive) (made : p.calls[number]? = some c)
    (held : .outlet ∈ c.holds) (apart : move.Apart number) (world : ω) :
    (p.step sink move).step sink (.world world) = (p.step sink (.world world)).step sink move := by
  obtain ⟨there, outlet, -⟩ := step_held sink exclusive made held apart
  rw [step_world there, outlet, step_world made, step_put sink exclusive made held rfl apart]

theorem run_worlds_comm {worlds : List (Move ω)} (exclusive : p.Exclusive)
    (made : p.calls[number]? = some c) (held : .outlet ∈ c.holds) (apart : move.Apart number)
    (only : ∀ other ∈ worlds, other.ofWorld = true) :
    (p.step sink move).run sink worlds = (p.run sink worlds).step sink move := by
  induction worlds generalizing p with
  | nil => rfl
  | cons other rest ih =>
    obtain ⟨first, others⟩ := List.forall_mem_cons.mp only
    obtain ⟨world, rfl⟩ : ∃ world, other = .world world := by
      cases other <;> simp [Move.ofWorld] at first ⊢
    calc (p.step sink move).run sink (.world world :: rest)
        = ((p.step sink (.world world)).step sink move).run sink rest :=
          congrArg (run sink · rest) (step_world_comm exclusive made held apart world)
      _ = ((p.step sink (.world world)).run sink rest).step sink move :=
          ih (p := p.step sink (.world world)) exclusive made others

theorem run_worlds {worlds : List (Move ω)} (only : ∀ move ∈ worlds, move.ofWorld = true)
    (sink : Sink ω) (p : Pool ω) :
    p.run sink worlds = { p with world := (p.run sink worlds).world } := by
  induction worlds generalizing p with
  | nil => rfl
  | cons move rest ih =>
    obtain ⟨first, others⟩ := List.forall_mem_cons.mp only
    cases move with
    | world world => exact ih others (p.step sink (.world world))
    | _ => cases first

theorem run_worlds_first {moves : List (Move ω)} (sink : Sink ω) (exclusive : p.Exclusive)
    (made : p.calls[number]? = some c) (held : .outlet ∈ c.holds)
    (apart : ∀ move ∈ moves, move.ofWorld = true ∨ move.Apart number) :
    p.run sink (moves.filter Move.ofWorld ++ moves.filter (!·.ofWorld)) = p.run sink moves := by
  induction moves generalizing p with
  | nil => rfl
  | cons move rest ih =>
    obtain ⟨first, others⟩ := List.forall_mem_cons.mp apart
    cases world : move.ofWorld with
    | true =>
      rw [List.filter_cons_of_pos world, List.filter_cons_of_neg (by simp [world])]
      cases move with
      | world next => exact ih (p := p.step sink (.world next)) exclusive made others
      | _ => cases world
    | false =>
      have alone : move.Apart number := first.resolve_left (by simp [world])
      have only : ∀ other ∈ rest.filter Move.ofWorld, other.ofWorld = true :=
        fun other inside => (List.mem_filter.mp inside).2
      rw [List.filter_cons_of_neg (by simp [world]), List.filter_cons_of_pos (by simp [world])]
      calc p.run sink (rest.filter Move.ofWorld ++ move :: rest.filter (!·.ofWorld))
          = ((p.run sink (rest.filter Move.ofWorld)).step sink move).run sink
              (rest.filter (!·.ofWorld)) := run_append ..
        _ = ((p.step sink move).run sink (rest.filter Move.ofWorld)).run sink
              (rest.filter (!·.ofWorld)) := by
          rw [run_worlds_comm exclusive made held alone only]
        _ = (p.step sink move).run sink
              (rest.filter Move.ofWorld ++ rest.filter (!·.ofWorld)) := (run_append ..).symm
        _ = p.run sink (move :: rest) :=
          ih (exclusive_step exclusive move) (step_held sink exclusive made held alone).1 others

/-! ### The packing of a heartbeat -/

theorem step_packHeartbeat {header : Wire.Header} (sink : Sink ω) (now : Int)
    (made : p.calls[number]? = some (.packHeartbeat header)) :
    p.step sink (.advance now number) =
      match p.feed.outlet.pack (sink.isReady p.world).1 header [] with
      | .ok (_, outlet) => p.put number (.write .heartbeat) outlet (sink.isReady p.world).2
      | .error failure =>
        p.put number (.done (.error failure)) p.feed.outlet (sink.isReady p.world).2 := by
  have free : p.free (Call.packHeartbeat header).needs = true := free_iff.mpr (by simp [Call.needs])
  simp only [step, made, free, if_true, Call.step, Sink.watched, Feed.pack]
  cases p.feed.outlet.pack (sink.isReady p.world).1 header [] <;> rfl

theorem apart_of_waits {header : Wire.Header} {moves : List (Move ω)}
    (waits : ∀ early, early <+: moves →
      (p.run sink early).calls[number]? = some (.packHeartbeat header)) :
    ∀ move ∈ moves, move.ofWorld = true ∨ move.Apart number := by
  intro move inside
  obtain ⟨early, late, rfl⟩ := List.append_of_mem inside
  have before := waits early (List.prefix_append ..)
  have after := waits (early ++ [move]) ⟨late, by simp⟩
  cases move with
  | advance now other =>
    refine Or.inr ?_
    intro same
    have there := (List.getElem?_eq_some_iff.mp before).1
    rw [run_append, same] at after
    have step := step_packHeartbeat sink now before
    have after : ((p.run sink early).step sink (.advance now number)).calls[number]? =
      some (.packHeartbeat header) := after
    rw [step] at after
    split at after
    · cases (List.getElem?_set_self there).symm.trans after
    · cases (List.getElem?_set_self there).symm.trans after
  | world => exact Or.inl rfl
  | _ => exact Or.inr trivial

/-- Packed before what the other calls do, the frame is the same and so is the pool. -/
theorem run_packHeartbeat_comm {header : Wire.Header} {purpose : Purpose} {others : List (Move ω)}
    (exclusive : p.Exclusive) (made : p.calls[number]? = some (.packHeartbeat header))
    (apart : ∀ move ∈ others, move.Apart number) (now : Int)
    (packs : (p.run sink (others ++ [.advance now number])).calls[number]? =
      some (.write purpose)) :
    (p.step sink (.advance now number)).calls[number]? = some (.write .heartbeat) ∧
      (p.step sink (.advance now number)).feed.outlet =
        (p.run sink (others ++ [.advance now number])).feed.outlet ∧
      p.run sink (.advance now number :: others) =
        p.run sink (others ++ [.advance now number]) := by
  have held : Call.Lock.outlet ∈ (Call.packHeartbeat header).holds := List.mem_cons_self
  have same : (Call.write .heartbeat).holds = (Call.packHeartbeat header).holds := rfl
  obtain ⟨-, there, outlet_eq, world_eq⟩ :=
    run_put sink exclusive made held same apart p.feed.outlet p.world
  have last := step_packHeartbeat sink now there
  rw [outlet_eq, world_eq] at last
  have first := step_packHeartbeat sink now made
  rw [run_append] at packs ⊢
  cases packed : p.feed.outlet.pack (sink.isReady p.world).1 header [] with
  | ok pair =>
    rw [packed] at first last
    refine ⟨?_, ?_, ?_⟩
    · rw [first]
      exact List.getElem?_set_self (List.getElem?_eq_some_iff.mp made).1
    · calc (p.step sink (.advance now number)).feed.outlet
          = pair.2 := by rw [first]; rfl
        _ = ((p.run sink others).step sink (.advance now number)).feed.outlet := by rw [last]; rfl
    · calc p.run sink (.advance now number :: others)
          = (p.step sink (.advance now number)).run sink others := rfl
        _ = (p.put number (.write .heartbeat) pair.2 (sink.isReady p.world).2).run sink others := by
          rw [first]
        _ = (p.run sink others).put number (.write .heartbeat) pair.2 (sink.isReady p.world).2 :=
          (run_put sink exclusive made held same apart pair.2 _).1
        _ = (p.run sink others).step sink (.advance now number) := last.symm
  | error failure =>
    -- A packing that is refused lets go of the outlet, and nothing is written.
    rw [packed] at last
    have done : ((p.run sink others).step sink (.advance now number)).calls[number]? =
        some (.done (.error failure)) := by
      rw [last]
      exact List.getElem?_set_self (List.getElem?_eq_some_iff.mp there).1
    cases done.symm.trans packs

/-- The moves may as well come in another order, with the same pool behind them, in which the call
packs the wire in the feed that was there before all of them. -/
def AtOnce (sink : Sink ω) (p : Pool ω) (moves : List (Move ω)) (number : Nat) (wire : Bytes) :
    Prop :=
  ∃ early now late purpose, (early ++ .advance now number :: late).Perm moves ∧
    p.run sink (early ++ .advance now number :: late) = p.run sink moves ∧
    (p.run sink early).feed = p.feed ∧
    (p.run sink (early ++ [.advance now number])).calls[number]? = some (.write purpose) ∧
    (p.run sink (early ++ [.advance now number])).feed.outlet.wire? = .ok wire

theorem AtOnce.cons {moves : List (Move ω)} {wire : Bytes}
    (at_once : (p.step sink move).AtOnce sink moves number wire)
    (same : (p.step sink move).feed = p.feed) : p.AtOnce sink (move :: moves) number wire := by
  obtain ⟨early, now, late, purpose, order, run, feed, packs, packed⟩ := at_once
  exact ⟨move :: early, now, late, purpose, order.cons move, run, feed.trans same, packs, packed⟩

theorem run_at_once {header : Wire.Header} {purpose : Purpose} {between : List (Move ω)}
    {wire : Bytes} (exclusive : p.Exclusive)
    (made : p.calls[number]? = some (.packHeartbeat header))
    (apart : ∀ move ∈ between, move.ofWorld = true ∨ move.Apart number) (now : Int)
    (packs : (p.run sink (between ++ [.advance now number])).calls[number]? =
      some (.write purpose))
    (packed : (p.run sink (between ++ [.advance now number])).feed.outlet.wire? = .ok wire) :
    p.AtOnce sink (between ++ [.advance now number]) number wire := by
  have only : ∀ move ∈ between.filter Move.ofWorld, move.ofWorld = true :=
    fun move inside => (List.mem_filter.mp inside).2
  have others : ∀ move ∈ between.filter (!·.ofWorld), move.Apart number := by
    intro move inside
    obtain ⟨member, alone⟩ := List.mem_filter.mp inside
    exact (apart move member).resolve_left (by simpa using alone)
  have worlds := run_worlds only sink p
  have first := run_worlds_first sink exclusive made List.mem_cons_self apart
  rw [run_append] at first
  have same : (p.run sink (between.filter Move.ofWorld)).run sink
      (between.filter (!·.ofWorld) ++ [.advance now number]) =
        p.run sink (between ++ [.advance now number]) := by
    rw [run_append, first, run_append]
  obtain ⟨writes, outlet, moved⟩ := run_packHeartbeat_comm (p := p.run sink (between.filter _))
    (by rw [worlds]; exact exclusive) (by rw [worlds]; exact made) others now (same ▸ packs)
  rw [same] at outlet moved
  refine ⟨between.filter Move.ofWorld, now, between.filter (!·.ofWorld), .heartbeat, ?_, ?_,
    by rw [worlds], ?_, ?_⟩
  · have gathered := (List.filter_append_perm Move.ofWorld between).cons (.advance now number)
    exact List.perm_middle.trans (gathered.trans (List.perm_append_singleton _ _).symm)
  · rw [run_append]
    exact moved
  · rw [run_append]
    exact writes
  · rw [run_append, ← packed]
    exact congrArg Outlet.wire? outlet

end Pool

end ScreenPreview.Stream
