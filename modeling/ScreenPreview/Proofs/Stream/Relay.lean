import ScreenPreview.Proofs.Stream.Cycle
import ScreenPreview.Stream.Record

/-!
The tasks of the timer.

One task ticks and puts what a tick asks for into a queue, order by order; another takes the orders
off the queue and carries each out before it takes the next. A relay is a pool of calls with these
two tasks, and whatever else is done to the feed comes in between as it likes. Its history keeps
what the tasks did and what became of the pictures, and the timer goes by that history
(`Kept.upkeep`). Orders are neither lost, doubled nor exchanged (`run_orders`), and what is written
as a repetition or a heartbeat goes back to one (`Kept.order_of_writes`).
-/
namespace ScreenPreview.Stream

structure Order where
  number : Nat
  tick : Int
  due : Upkeep.Intent
  deriving DecidableEq

def Order.list (first : Nat) (tick : Int) : List Upkeep.Intent → List Order
  | [] => []
  | due :: rest => ⟨first, tick, due⟩ :: list (first + 1) tick rest

inductive Note where
  | ticked (orders : List Order)
  | took (call : Nat) (order : Order)
  | published
  | finished (now : Int)

abbrev History := List Note

namespace History

def asked : History → List Order
  | [] => []
  | .ticked orders :: older => asked older ++ orders
  | _ :: older => asked older

def taken : History → List (Nat × Order)
  | [] => []
  | .took call order :: older => taken older ++ [(call, order)]
  | _ :: older => taken older

def order? (call : Nat) (h : History) : Option Order := (h.taken.find? (·.1 = call)).map (·.2)

def lastFinished : History → Option Int
  | [] => none
  | .finished now :: _ => some now
  | _ :: older => lastFinished older

def cycling : History → Bool
  | [] => false
  | .ticked orders :: older => orders.any (·.due = .heartbeat) || cycling older
  | .published :: _ => false
  | _ :: older => cycling older

def since (order : Order) (h : History) : History :=
  h.takeWhile fun
    | .ticked orders => !orders.contains order
    | _ => true

/-- A tick may ask for this after what happened so far. -/
structure Lets (timing : Upkeep.Timing) (h : History) (order : Order) : Prop where
  spaced : order.due = .resend →
    ∀ last ∈ h.lastFinished, timing.resendInterval ≤ elapsed last order.tick
  outside : order.due = .heartbeat → h.cycling = false

def WellAsked (timing : Upkeep.Timing) (h : History) : Prop :=
  ∀ orders older, .ticked orders :: older <:+ h → ∀ order ∈ orders, Lets timing older order

theorem WellAsked.of_suffix {timing : Upkeep.Timing} {older h : History}
    (well : h.WellAsked timing) (suffix : older <:+ h) : older.WellAsked timing :=
  fun orders before behind => well orders before (behind.trans suffix)

theorem WellAsked.cons {timing : Upkeep.Timing} {h : History} {note : Note}
    (well : h.WellAsked timing) (no_tick : ∀ orders, note ≠ .ticked orders) :
    WellAsked timing (note :: h) := by
  intro orders older behind
  rcases List.suffix_cons_iff.mp behind with same | before
  · exact absurd (List.cons.inj same).1.symm (no_tick orders)
  · exact well orders older before

theorem WellAsked.tick {timing : Upkeep.Timing} {h : History} {orders : List Order}
    (well : h.WellAsked timing) (asks : ∀ order ∈ orders, h.Lets timing order) :
    WellAsked timing (.ticked orders :: h) := by
  intro others older behind
  rcases List.suffix_cons_iff.mp behind with same | before
  · obtain ⟨first, rfl⟩ := List.cons.inj same
    cases first
    exact asks
  · exact well others older before

theorem order?_took (call other : Nat) (order : Order) (h : History) :
    order? other (.took call order :: h) =
      (h.order? other).or (if call = other then some order else none) := by
  rw [order?, order?, taken, List.find?_append, Option.map_or]
  congr 1
  by_cases same : call = other <;> simp [same]

theorem order?_eq_none {call : Nat} {h : History} (new : ∀ taking ∈ h.taken, taking.1 < call) :
    h.order? call = none := by
  rw [order?, Option.map_eq_none_iff, List.find?_eq_none]
  intro taking member
  have := new taking member
  simp
  omega

end History

structure Relay (ω : Type) where
  pool : Pool ω
  backlog : List Order := []
  queue : List Order := []
  current : Option Nat := none
  history : History := []

def Pool.noted {ω : Type} (p : Pool ω) : Move ω → History
  | .advance now number =>
    match p.calls[number]? with
    | some (.publish job quality) =>
      if p.free (Call.publish job quality).needs then [.published] else []
    | some (.record purpose _) => if purpose.isPicture then [.finished now] else []
    | _ => []
  | _ => []

theorem Pool.noted_cases {ω : Type} (p : Pool ω) (move : Move ω) :
    p.noted move = [] ∨ p.noted move = [.published] ∨
      ∃ now, move.clock? = some now ∧ p.noted move = [.finished now] := by
  unfold noted
  cases move with
  | advance now number =>
    simp only
    split
    · split
      · exact Or.inr (Or.inl rfl)
      · exact Or.inl rfl
    · split
      · exact Or.inr (Or.inr ⟨now, rfl, rfl⟩)
      · exact Or.inl rfl
    · exact Or.inl rfl
  | _ => exact Or.inl rfl

namespace Relay

variable {ω : Type}

inductive Move (ω : Type) where
  | tick (now : Int)
  | enqueue
  | take (read : Int)
  | other (move : Stream.Move ω)

def Move.clock? : Move ω → Option Int
  | .tick now => some now
  | .other move => move.clock?
  | _ => none

def Move.instant? : Move ω → Option Int
  | .take read => some read
  | .other move => move.instant?
  | move => move.clock?

def room : Nat := 32

/-- Ticks, and calls for what they ask for, are left to the two tasks. -/
def IsTask : Stream.Move ω → Bool
  | .start _ (.intent _) => true
  | .control _ .tick => true
  | _ => false

def ready (r : Relay ω) : Bool :=
  r.current.all fun number => r.pool.calls[number]?.all fun c => c.result?.isSome

def start (feed : Feed) (world : ω) : Relay ω := { pool := .start feed world }

def step (sink : Sink ω) (r : Relay ω) : Move ω → Relay ω
  | .tick now =>
    if r.backlog.isEmpty then
      let orders := Order.list r.history.asked.length now (r.pool.feed.tick now).1
      { r with
        pool := r.pool.step sink (.control now .tick)
        backlog := orders
        history := .ticked orders :: r.history }
    else r
  | .enqueue =>
    match r.backlog with
    | [] => r
    | order :: rest =>
      if r.queue.length < room then { r with backlog := rest, queue := r.queue ++ [order] } else r
  | .take read =>
    match r.queue with
    | [] => r
    | order :: rest =>
      if r.ready then
        { r with
          pool := r.pool.step sink (.start read (.intent order.due))
          queue := rest
          current := some r.pool.calls.length
          history := .took r.pool.calls.length order :: r.history }
      else r
  | .other move =>
    if IsTask move then r
    else { r with pool := r.pool.step sink move, history := r.pool.noted move ++ r.history }

def run (sink : Sink ω) (r : Relay ω) (moves : List (Move ω)) : Relay ω := moves.foldl (step sink) r

def Writes (r : Relay ω) (call : Nat) (wire : Bytes) : Prop :=
  (∃ purpose, r.pool.calls[call]? = some (.write purpose)) ∧ r.pool.feed.outlet.wire? = .ok wire

structure Kept (sink : Sink ω) (reserve : Nat) (timing : Upkeep.Timing) (r : Relay ω) : Prop where
  sound : r.pool.Sound sink reserve
  fits : r.pool.log.Fits reserve
  pulse : r.pool.feed.pulse = ⟨r.history.cycling, r.history.lastFinished, timing⟩
  fifo : r.history.asked = r.history.taken.map (·.2) ++ (r.queue ++ r.backlog)
  numbers : r.history.asked.map (·.number) = List.range r.history.asked.length
  calls : ∀ taking ∈ r.history.taken, taking.1 < r.pool.calls.length
  orders : ∀ call due, (call, .asked (.intent due)) ∈ r.pool.log →
    ∃ order, r.history.order? call = some order ∧ order.due = due
  well : r.history.WellAsked timing

variable {sink : Sink ω} {reserve : Nat} {timing : Upkeep.Timing} {r : Relay ω}

theorem mem_list {first : Nat} {tick : Int} {intents : List Upkeep.Intent} {order : Order}
    (member : order ∈ Order.list first tick intents) : order.tick = tick ∧ order.due ∈ intents := by
  induction intents generalizing first with
  | nil => cases member
  | cons due rest ih =>
    rcases List.mem_cons.mp member with rfl | later
    · exact ⟨rfl, List.mem_cons_self⟩
    · obtain ⟨same, among⟩ := ih later
      exact ⟨same, List.mem_cons_of_mem _ among⟩

theorem numbers_list (first : Nat) (tick : Int) (intents : List Upkeep.Intent) :
    (Order.list first tick intents).map (·.number) = List.range' first intents.length ∧
      (Order.list first tick intents).length = intents.length := by
  induction intents generalizing first with
  | nil => exact ⟨rfl, rfl⟩
  | cons due rest ih =>
    obtain ⟨numbers, length⟩ := ih (first + 1)
    constructor
    · rw [Order.list, List.map_cons, numbers, List.length_cons, List.range'_succ]
    · rw [Order.list, List.length_cons, length, List.length_cons]

theorem any_heartbeat_list (first : Nat) (tick : Int) (intents : List Upkeep.Intent) :
    (Order.list first tick intents).any (·.due = .heartbeat) = decide (.heartbeat ∈ intents) := by
  induction intents generalizing first with
  | nil => rfl
  | cons due rest ih =>
    rw [Order.list, List.any_cons, ih]
    simp [List.mem_cons, eq_comm]

theorem Kept.upkeep (kept : r.Kept sink reserve timing) :
    r.pool.feed.upkeep.idle = r.history.cycling ∧
      r.pool.feed.upkeep.lastSent = r.history.lastFinished ∧
      r.pool.feed.upkeep.timing = timing := by
  have same := kept.pulse
  simp only [Feed.pulse, Upkeep.pulse, Pulse.mk.injEq] at same
  exact same

theorem Kept.pulse_tick (kept : r.Kept sink reserve timing) (now : Int) (first : Nat) :
    (r.pool.feed.tick now).2.pulse =
      ⟨History.cycling (.ticked (Order.list first now (r.pool.feed.tick now).1) :: r.history),
        r.history.lastFinished, timing⟩ := by
  have any := any_heartbeat_list first now (r.pool.feed.tick now).1
  rw [History.cycling, any]
  rcases r.pool.feed.upkeep.pulse_plan now r.pool.feed.lastPicture.isSome with
    ⟨none, same⟩ | ⟨planned, -, starts⟩
  · have none : .heartbeat ∉ (r.pool.feed.tick now).1 := none
    rw [decide_eq_false none, Bool.false_or]
    exact same.trans kept.pulse
  · have planned : .heartbeat ∈ (r.pool.feed.tick now).1 := planned
    rw [decide_eq_true planned, Bool.true_or]
    refine starts.trans ?_
    rw [show r.pool.feed.upkeep.pulse = _ from kept.pulse]

theorem Kept.asks (kept : r.Kept sink reserve timing) (now : Int) {first : Nat} {order : Order}
    (member : order ∈ Order.list first now (r.pool.feed.tick now).1) :
    r.history.Lets timing order := by
  obtain ⟨idle, sent, constant⟩ := kept.upkeep
  obtain ⟨rfl, planned⟩ := mem_list member
  constructor
  · intro resend last finished
    rw [resend] at planned
    obtain ⟨-, -, spaced⟩ := Upkeep.resend_mem_plan.mp planned
    rw [constant, sent] at spaced
    exact spaced last finished
  · intro heartbeat
    rw [heartbeat] at planned
    rcases r.pool.feed.upkeep.pulse_plan order.tick r.pool.feed.lastPicture.isSome with
      ⟨none, -⟩ | ⟨-, outside, -⟩
    · exact absurd planned none
    · exact idle.symm.trans outside

theorem Kept.tick (kept : r.Kept sink reserve timing) (now : Int) :
    (r.step sink (.tick now)).Kept sink reserve timing := by
  unfold Relay.step
  cases done : r.backlog.isEmpty with
  | false => exact kept
  | true =>
    have next_sound := Pool.sound_control kept.sound now .tick
    simp only [if_true, Pool.step_tick] at next_sound ⊢
    refine ⟨next_sound, kept.fits, kept.pulse_tick now _, ?_, ?_, kept.calls, kept.orders, ?_⟩
    · -- Nothing is left of the tick before, so the new orders come behind all others.
      have fifo := kept.fifo
      rw [List.isEmpty_iff.mp done, List.append_nil] at fifo
      exact (congrArg (· ++ _) fifo).trans (List.append_assoc ..)
    · obtain ⟨numbers, length⟩ :=
        numbers_list r.history.asked.length now (r.pool.feed.tick now).1
      have split := @List.range'_append_1 0 r.history.asked.length (r.pool.feed.tick now).1.length
      rw [Nat.zero_add] at split
      rw [History.asked, List.map_append, List.length_append, kept.numbers, numbers, length,
        List.range_eq_range', List.range_eq_range', split]
    · exact kept.well.tick fun order member => kept.asks now member

theorem Kept.enqueue (kept : r.Kept sink reserve timing) :
    (r.step sink .enqueue).Kept sink reserve timing := by
  unfold Relay.step
  cases waiting : r.backlog with
  | nil => exact kept
  | cons order rest =>
    simp only
    split
    · have fifo := kept.fifo
      rw [waiting] at fifo
      refine ⟨kept.sound, kept.fits, kept.pulse, ?_, kept.numbers, kept.calls, kept.orders,
        kept.well⟩
      rw [fifo]
      simp
    · exact kept

theorem asked_of_start {c : Call} {request other : Request} {number call : Nat}
    (member : (call, .asked other) ∈ (c.claims ++ [Event.asked request]).map (number, ·)) :
    call = number ∧ other = request := by
  unfold Call.claims at member
  split at member <;> simpa [eq_comm] using member

theorem Kept.take (kept : r.Kept sink reserve timing) (now : Int) :
    (r.step sink (.take now)).Kept sink reserve timing := by
  unfold Relay.step
  cases waiting : r.queue with
  | nil => exact kept
  | cons order rest =>
    simp only
    split
    · have next_sound := Pool.sound_start kept.sound now (.intent order.due)
      have next_fits := Pool.fits_start kept.sound kept.fits now (.intent order.due)
      have well : History.WellAsked timing (.took r.pool.calls.length order :: r.history) :=
        kept.well.cons (by simp)
      rw [Pool.step_start] at next_sound next_fits ⊢
      refine ⟨next_sound, next_fits, kept.pulse, ?_, kept.numbers, ?_, ?_, well⟩
      · have fifo := kept.fifo
        rw [waiting] at fifo
        show r.history.asked = _
        rw [fifo]
        simp [History.taken]
      · intro taking member
        rw [List.length_append, List.length_singleton]
        rcases List.mem_append.mp member with before | new
        · exact Nat.lt_succ_of_lt (kept.calls taking before)
        · rw [List.mem_singleton.mp new]
          exact Nat.lt_succ_self _
      · intro call due member
        rw [History.order?_took]
        rcases List.mem_append.mp member with fresh | before
        · -- The call is new, so no order was taken for it before.
          obtain ⟨rfl, same⟩ := asked_of_start fresh
          cases same
          rw [History.order?_eq_none kept.calls, if_pos rfl]
          exact ⟨order, rfl, rfl⟩
        · obtain ⟨earlier, taken, same⟩ := kept.orders call due before
          rw [taken]
          exact ⟨earlier, rfl, same⟩
    · exact kept

theorem Kept.start (kept : r.Kept sink reserve timing) (now : Int) {request : Request}
    (own : ∀ due, request ≠ .intent due) :
    Kept sink reserve timing { r with pool := r.pool.step sink (.start now request) } := by
  have next_sound := Pool.sound_start kept.sound now request
  have next_fits := Pool.fits_start kept.sound kept.fits now request
  have pulse := (request.pulse_enter now r.pool.feed).trans kept.pulse
  rw [Pool.step_start] at next_sound next_fits ⊢
  refine ⟨next_sound, next_fits, pulse, kept.fifo, kept.numbers, ?_, ?_, kept.well⟩
  · intro taking member
    rw [List.length_append]
    exact Nat.lt_add_right _ (kept.calls taking member)
  · intro call due member
    rcases List.mem_append.mp member with fresh | before
    · exact absurd (asked_of_start fresh).2.symm (own due)
    · exact kept.orders call due before

theorem Kept.section (kept : r.Kept sink reserve timing) {now : Int} {number : Nat} {c d : Call}
    {events : List Event} {feed : Feed} {world : ω}
    (step : r.pool.step sink (.advance now number) =
      { feed, world, calls := r.pool.calls.set number d,
        log := events.map (number, ·) ++ r.pool.log })
    (taken : Call.Section sink c r.pool.feed events d feed)
    (pulse : feed.pulse =
      ⟨History.cycling (r.pool.noted (.advance now number) ++ r.history),
        History.lastFinished (r.pool.noted (.advance now number) ++ r.history), timing⟩) :
    Kept sink reserve timing
      { r with
        pool := r.pool.step sink (.advance now number)
        history := r.pool.noted (.advance now number) ++ r.history } := by
  have next_sound := Pool.sound_advance kept.sound now number
  have next_fits := Pool.fits_step kept.sound kept.fits (.advance now number)
  rw [step] at next_sound next_fits ⊢
  have calls : ∀ taking ∈ r.history.taken, taking.1 < (r.pool.calls.set number d).length := by
    rw [List.length_set]
    exact kept.calls
  have orders : ∀ call due,
      (call, .asked (.intent due)) ∈ events.map (number, ·) ++ r.pool.log →
      ∃ order, r.history.order? call = some order ∧ order.due = due := by
    intro call due member
    rcases List.mem_append.mp member with fresh | before
    · obtain ⟨event, among, same⟩ := List.mem_map.mp fresh
      obtain ⟨rfl, rfl⟩ := Prod.mk.inj same
      have asked := mem_requests.mpr among
      rw [taken.requests_eq] at asked
      cases asked
    · exact kept.orders call due before
  rcases r.pool.noted_cases (.advance now number) with none | published | ⟨_, _, finished⟩
  · rw [none] at pulse ⊢
    exact ⟨next_sound, next_fits, pulse, kept.fifo, kept.numbers, calls, orders, kept.well⟩
  · rw [published] at pulse ⊢
    exact ⟨next_sound, next_fits, pulse, kept.fifo, kept.numbers, calls, orders,
      kept.well.cons (by simp)⟩
  · rw [finished] at pulse ⊢
    exact ⟨next_sound, next_fits, pulse, kept.fifo, kept.numbers, calls, orders,
      kept.well.cons (by simp)⟩

theorem Kept.advance (kept : r.Kept sink reserve timing) (now : Int) (number : Nat) :
    Kept sink reserve timing
      { r with
        pool := r.pool.step sink (.advance now number)
        history := r.pool.noted (.advance now number) ++ r.history } := by
  cases made : r.pool.calls[number]? with
  | none =>
    have same : r.pool.step sink (.advance now number) = r.pool := by simp [Pool.step, made]
    rw [same, Pool.noted, made]
    exact kept
  | some c =>
    cases free : r.pool.free c.needs with
    | false =>
      have nothing : r.pool.noted (.advance now number) = [] := by
        rw [Pool.noted, made]
        cases c with
        | publish job quality => simp [free]
        | record purpose bytes => simp [Call.needs, Pool.free] at free
        | _ => rfl
      rw [Pool.step_of_waits sink r.pool now made free, nothing]
      exact kept
    | true =>
      obtain ⟨d, events, feed, world, taken, step⟩ := Pool.step_of_free sink r.pool now made free
      refine kept.section step taken ?_
      -- What the timer goes by moves in the two sections that the history notes, and in no other.
      rcases taken.pulse_cases with ⟨job, quality, picture, rfl, rfl, ended⟩ |
        ⟨purpose, bytes, rfl, rfl, -⟩ | ⟨no_publish, no_record, -, same⟩
      · have noted : r.pool.noted (.advance now number) = [.published] := by
          simp [Pool.noted, made, free]
        rw [noted, ended, kept.pulse]
        rfl
      · have counted := Pool.step_record sink r.pool now made
        have pulse := Call.pulse_recorded purpose now bytes r.pool.feed
        rw [show Call.recorded purpose now bytes r.pool.feed = feed from
          congrArg Pool.feed (counted.symm.trans step)] at pulse
        rw [pulse, kept.pulse]
        simp only [Pool.noted, made]
        cases purpose <;> rfl
      · have noted : r.pool.noted (.advance now number) = [] := by
          rw [Pool.noted, made]
          cases c with
          | publish job quality => exact absurd rfl (no_publish job quality)
          | record purpose bytes => exact absurd rfl (no_record purpose bytes)
          | _ => rfl
        rw [noted]
        exact same.trans kept.pulse

theorem Kept.control (kept : r.Kept sink reserve timing) (now : Int) {change : Control}
    (other : change ≠ .tick) :
    Kept sink reserve timing { r with pool := r.pool.step sink (.control now change) } := by
  have next_sound := Pool.sound_control kept.sound now change
  rcases r.pool.step_control sink now change with same | ⟨-, step⟩
  · rw [same]
    exact kept
  · rw [step] at next_sound ⊢
    have pulse := (Control.pulse_apply other now r.pool.feed).trans kept.pulse
    exact ⟨next_sound, kept.fits, pulse, kept.fifo, kept.numbers, kept.calls, kept.orders,
      kept.well⟩

theorem Kept.step (kept : r.Kept sink reserve timing) (move : Move ω) :
    (r.step sink move).Kept sink reserve timing := by
  cases move with
  | tick now => exact kept.tick now
  | enqueue => exact kept.enqueue
  | take now => exact kept.take now
  | other move =>
    cases task : IsTask move with
    | true =>
      rw [show r.step sink (.other move) = r by simp [Relay.step, task]]
      exact kept
    | false =>
      simp only [Relay.step, task, Bool.false_eq_true, if_false]
      cases move with
      | start now request =>
        cases request with
        | intent due => cases task
        | _ => exact kept.start now (by simp)
      | advance now number => exact kept.advance now number
      | control now change =>
        cases change with
        | tick => cases task
        | _ => exact kept.control now (by simp)
      | world world =>
        exact ⟨Pool.sound_step kept.sound (.world world), kept.fits, kept.pulse, kept.fifo,
          kept.numbers, kept.calls, kept.orders, kept.well⟩

theorem Kept.run (kept : r.Kept sink reserve timing) (moves : List (Move ω)) :
    (r.run sink moves).Kept sink reserve timing := by
  induction moves generalizing r with
  | nil => exact kept
  | cons move rest ih => exact ih (kept.step move)

theorem kept_new (settings : Settings) (geometry : Screen.Geometry) (encoder : Picture.Encoder)
    (reserve : Nat) (now : Int) (world : ω) :
    (start (.new settings geometry encoder reserve now) world).Kept sink reserve
      settings.timing where
  sound := Pool.sound_new settings geometry encoder reserve now world
  fits := by
    intro number event member
    cases member
  pulse := rfl
  fifo := rfl
  numbers := rfl
  calls := by
    intro taking member
    cases member
  orders := by
    intro call due member
    cases member
  well := by
    intro orders older behind
    cases List.suffix_nil.mp behind

theorem Kept.nodup_asked (kept : r.Kept sink reserve timing) : r.history.asked.Nodup := by
  have numbers : (r.history.asked.map (·.number)).Nodup := by
    rw [kept.numbers]
    exact List.nodup_range
  exact List.Pairwise.of_map (·.number) (fun _ _ differ same => differ (congrArg _ same)) numbers

/-- In every run, the orders are carried out in the order in which ticks ask for them, none twice
and none left out. -/
theorem run_orders (sink : Sink ω) (settings : Settings) (geometry : Screen.Geometry)
    (encoder : Picture.Encoder) (reserve : Nat) (now : Int) (world : ω) (moves : List (Move ω)) :
    let r := (start (.new settings geometry encoder reserve now) world).run sink moves
    r.history.asked = r.history.taken.map (·.2) ++ (r.queue ++ r.backlog) ∧
      r.history.asked.Nodup := by
  intro r
  have kept : r.Kept sink reserve settings.timing :=
    (kept_new settings geometry encoder reserve now world).run moves
  exact ⟨kept.fifo, kept.nodup_asked⟩

theorem Kept.mem_asked (kept : r.Kept sink reserve timing) {call : Nat} {order : Order}
    (taken : r.history.order? call = some order) : order ∈ r.history.asked := by
  obtain ⟨⟨other, order⟩, found, same⟩ := Option.map_eq_some_iff.mp taken
  cases same
  rw [kept.fifo]
  apply List.mem_append_left
  exact List.mem_map.mpr ⟨_, List.mem_of_find?_eq_some found, rfl⟩

theorem Kept.order_of_requests (kept : r.Kept sink reserve timing) {call : Nat}
    {due : Upkeep.Intent} (asked : Event.requests (r.pool.log.own call) = [.intent due]) :
    ∃ order ∈ r.history.asked, r.history.order? call = some order ∧ order.due = due := by
  have among : .intent due ∈ Event.requests (r.pool.log.own call) := by
    rw [asked]
    exact List.mem_singleton.mpr rfl
  obtain ⟨order, taken, same⟩ := kept.orders call due (Log.mem_own.mp (mem_requests.mp among))
  exact ⟨order, kept.mem_asked taken, taken, same⟩

theorem Kept.order_of_writes (kept : r.Kept sink reserve timing) {call : Nat} {wire : Bytes}
    (writes : r.Writes call wire) :
    (flagged reserve .resend wire = true →
      ∃ order ∈ r.history.asked, r.history.order? call = some order ∧ order.due = .resend) ∧
    (flagged reserve .empty wire = true →
      ∃ order ∈ r.history.asked, r.history.order? call = some order ∧ order.due = .heartbeat) := by
  obtain ⟨⟨purpose, made⟩, there⟩ := writes
  obtain ⟨request, asked, heartbeat, resend⟩ := (kept.sound.along call _ made).flagged_iff there
  constructor
  · intro flag
    rw [resend.mp flag] at asked
    exact kept.order_of_requests asked
  · intro flag
    rw [heartbeat.mp flag] at asked
    exact kept.order_of_requests asked

end Relay

namespace History

theorem since_append {order : Order} {h : History} (member : order ∈ h.asked) :
    ∃ orders before, h = h.since order ++ .ticked orders :: before ∧ order ∈ orders := by
  induction h with
  | nil => cases member
  | cons note older ih =>
    cases note with
    | ticked orders =>
      by_cases here : order ∈ orders
      · exact ⟨orders, older, by simp [since, here], here⟩
      · have earlier : order ∈ asked older := (List.mem_append.mp member).resolve_right here
        have further : since order (.ticked orders :: older) =
            .ticked orders :: since order older := by simp [since, here]
        obtain ⟨others, before, whole, inside⟩ := ih earlier
        rw [further]
        exact ⟨others, before, congrArg (_ :: ·) whole, inside⟩
    | _ =>
      obtain ⟨others, before, whole, inside⟩ := ih member
      exact ⟨others, before, congrArg (_ :: ·) whole, inside⟩

end History

namespace Relay

def blank : Relay Record :=
  start (.new {} { resolution := .uniform ⟨1, 1⟩ } (fun frame => .ok (90, frame.data)) 0 0) {}

def sending (now : Int) (call : Nat) : List (Move Record) :=
  .other (.start now (.frame { data := [1, 2, 3, 4], width := 1, height := 1 })) ::
    List.replicate 4 (.other (.advance now call))

end Relay

end ScreenPreview.Stream
