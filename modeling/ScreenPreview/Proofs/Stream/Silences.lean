import Mathlib.Data.List.Induction
import Mathlib.Data.List.TakeWhile
import ScreenPreview.Proofs.Stream.Cycle

/-!
One heartbeat for each silence.

The timer asks for a heartbeat when the renderer has been silent for too long, and then not again
until a frame is rendered, whatever else is done to the upkeep, in any order and at any instants.
A silence that is long enough gets its heartbeat at the first tick behind it; only a renderer that
never rendered may be spared one such tick (`run_one_heartbeat`).
-/
namespace ScreenPreview.Stream

namespace Upkeep

/-! ### How long a silence is -/

/-- A silence as a tick counts it: in whole milliseconds, as far as they fit a word. -/
def counted (length : Nat) : Nat := millis (wholeMillis length).toNat

section Counted

variable {length n : Nat}

theorem counted_eq (short : length < millis 0x10000000000000000) :
    counted length = millis (length / 1000000) := by
  have fits : length / 1000000 < 0x10000000000000000 := by
    rw [millis] at short
    omega
  rw [counted, wholeMillis, Nat.toUInt64_eq, UInt64.toNat_ofNat', Nat.mod_eq_of_lt fits]

theorem millis_lt_counted_iff (short : length < millis 0x10000000000000000) :
    millis n < counted length ↔ millis (n + 1) ≤ length := by
  rw [counted_eq short, millis, millis, millis]
  omega

theorem millis_le_counted_iff (short : length < millis 0x10000000000000000) :
    millis n ≤ counted length ↔ millis n ≤ length := by
  rw [counted_eq short, millis, millis]
  omega

end Counted

/-! ### What a tick decides -/

def Alive (u : Upkeep) (now : Int) : Prop :=
  match u.lastRender with
  | some last => counted (elapsed last now) < u.timing.renderCeiling
  | none => u.graceSpent = false ∧ u.timing.startupGrace ≤ counted (elapsed u.began now)

/-- There was no frame for too long, or no heartbeat for too long and no load is newer than it. -/
def Due (u : Upkeep) (now : Int) : Prop :=
  u.timing.idleThreshold < counted (u.silence now) ∨
    u.frameStamp ≤ u.flushStamp ∧ u.timing.idleThreshold < elapsed u.flushTime now

structure Vigil where
  timing : Timing
  began : Int
  lastRender : Option Int
  graceSpent : Bool
  idle : Bool

def vigil (u : Upkeep) : Vigil := ⟨u.timing, u.began, u.lastRender, u.graceSpent, u.idle⟩

inductive Decision (u : Upkeep) (now : Int) (asked : List Intent) (v : Upkeep) : Prop
  | lasts (inside : u.idle = true) (none : .heartbeat ∉ asked) (same : v.vigil = u.vigil)
  | spares (outside : u.idle = false) (alive : u.Alive now) (none : .heartbeat ∉ asked)
    (same : v.vigil = { u.vigil with graceSpent := u.graceSpent || u.lastRender.isNone })
  | waits (outside : u.idle = false) (silent : ¬ u.Alive now) (early : ¬ u.Due now)
    (none : .heartbeat ∉ asked) (same : v.vigil = u.vigil)
  | asks (outside : u.idle = false) (silent : ¬ u.Alive now) (due : u.Due now)
    (last : ∃ others, asked = others ++ [.heartbeat] ∧ .heartbeat ∉ others)
    (same : v.vigil = { u.vigil with idle := true })

theorem alive_iff {u : Upkeep} {now : Int} :
    (u.alive (wholeMillis (u.silence now))).1 = true ↔ u.Alive now := by
  unfold alive Alive silence counted
  cases u.lastRender with
  | some last => simp
  | none =>
    by_cases grace : u.timing.startupGrace ≤ millis (wholeMillis (elapsed u.began now)).toNat <;>
      cases u.graceSpent <;> simp [grace]

/-- Only the one sign of life of a renderer that never rendered leaves a trace. -/
theorem alive_cases (u : Upkeep) (now : Int) :
    (u.Alive now ∧ (u.alive (wholeMillis (u.silence now))).1 = true ∧
        (u.alive (wholeMillis (u.silence now))).2.vigil =
          { u.vigil with graceSpent := u.graceSpent || u.lastRender.isNone }) ∨
      ¬ u.Alive now ∧ u.alive (wholeMillis (u.silence now)) = (false, u) := by
  cases answer : (u.alive (wholeMillis (u.silence now))).1 with
  | true =>
    refine Or.inl ⟨alive_iff.mp answer, rfl, ?_⟩
    unfold alive at answer ⊢
    cases rendered : u.lastRender with
    | some last => simp [vigil, rendered]
    | none =>
      simp only [rendered, Option.isSome_none, Bool.false_eq_true, if_false] at answer ⊢
      split at answer
      · simp [*, vigil]
      · cases answer
  | false =>
    refine Or.inr ⟨fun alive => by simp [alive_iff.mpr alive] at answer, ?_⟩
    unfold alive at answer ⊢
    split at answer
    · simp_all
    · split at answer <;> simp_all

theorem heartbeatDue_cases (u : Upkeep) (now : Int) :
    (u.Due now ∧ (u.heartbeatDue now (wholeMillis (u.silence now))).1 = true ∧
        (u.heartbeatDue now (wholeMillis (u.silence now))).2.vigil = u.vigil) ∨
      ¬ u.Due now ∧ u.heartbeatDue now (wholeMillis (u.silence now)) = (false, u) := by
  have decides : (if u.flushStamp < u.frameStamp
      then decide (u.timing.idleThreshold < millis (wholeMillis (u.silence now)).toNat)
      else decide (u.timing.idleThreshold < millis (wholeMillis (u.silence now)).toNat) ||
        decide (u.timing.idleThreshold < elapsed u.flushTime now)) = true ↔ u.Due now := by
    unfold Due counted
    by_cases newer : u.flushStamp < u.frameStamp
    · simp [newer, Int.not_le.mpr newer]
    · simp [newer, Int.not_lt.mp newer]
  by_cases due : u.Due now
  · refine Or.inl ⟨due, ?_⟩
    simp only [heartbeatDue, decides.mpr due, if_true]
    exact ⟨trivial, rfl⟩
  · refine Or.inr ⟨due, ?_⟩
    simp only [heartbeatDue, Bool.eq_false_iff.mpr (mt decides.mp due)]
    rfl

theorem planHeartbeat_decision (u : Upkeep) (now : Int) :
    Decision u now (u.planHeartbeat now).1 (u.planHeartbeat now).2 := by
  unfold planHeartbeat
  cases idle : u.idle with
  | true => exact .lasts idle (by simp) rfl
  | false =>
    rcases u.alive_cases now with ⟨alive, answer, same⟩ | ⟨silent, answer⟩
    · simp only [answer, if_true, Bool.false_eq_true, if_false]
      exact .spares idle alive (by simp) same
    · simp only [answer, Bool.false_eq_true, if_false]
      rcases u.heartbeatDue_cases now with ⟨due, answer, same⟩ | ⟨early, answer⟩
      · simp only [answer, if_true]
        refine .asks idle silent due ⟨[], rfl, by simp⟩ ?_
        rw [← same]
        rfl
      · simp only [answer, Bool.false_eq_true, if_false]
        exact .waits idle silent early (by simp) rfl

theorem Decision.behind {u v : Upkeep} {now : Int} {held : Option HeldFrame}
    {others asked : List Intent} (decision : Decision { u with held } now asked v)
    (different : .heartbeat ∉ others) : Decision u now (others ++ asked) v := by
  have none_of (none : .heartbeat ∉ asked) : .heartbeat ∉ others ++ asked := by
    simp [different, none]
  cases decision with
  | lasts inside none same => exact .lasts inside (none_of none) same
  | spares outside alive none same => exact .spares outside alive (none_of none) same
  | waits outside silent early none same => exact .waits outside silent early (none_of none) same
  | asks outside silent due last same =>
    obtain ⟨before, rfl, absent⟩ := last
    refine .asks outside silent due ⟨others ++ before, ?_, ?_⟩ same
    · rw [List.append_assoc]
    · simp [different, absent]

theorem planReplay_eq (u : Upkeep) : ∃ held, u.planReplay.2 = { u with held } := by
  unfold planReplay
  split
  · exact ⟨none, rfl⟩
  · exact ⟨u.held, rfl⟩

theorem heartbeat_notMem_others (u : Upkeep) (now : Int) (hasPicture : Bool) :
    .heartbeat ∉ u.planReplay.1 ++ u.planReplay.2.planResend now hasPicture := by
  intro member
  rcases List.mem_append.mp member with replay | resend
  · obtain ⟨frame, ⟨⟩⟩ := eq_replay_of_mem replay
  · cases eq_resend_of_mem resend

theorem plan_decision (u : Upkeep) (now : Int) (hasPicture : Bool) :
    Decision u now (u.plan now hasPicture).1 (u.plan now hasPicture).2 := by
  obtain ⟨held, replayed⟩ := u.planReplay_eq
  have decision := planHeartbeat_decision { u with held } now
  have different := u.heartbeat_notMem_others now hasPicture
  simp only [plan, replayed] at different ⊢
  exact decision.behind different

/-! ### Runs -/

inductive Operation where
  | rendered
  | sent
  | flushEvent (stamp : Int)
  | loadStamp (stamp : Int)
  | frameStamp (stamp : Int)
  | loadState (reached : Screen.LoadState)
  | hold (frame : HeldFrame)
  | tick (hasPicture : Bool)
  deriving DecidableEq

namespace Operation

def isRendered : Operation → Bool
  | rendered => true
  | _ => false

def isTick : Operation → Bool
  | tick _ => true
  | _ => false

theorem isRendered_iff {operation : Operation} :
    operation.isRendered = true ↔ operation = .rendered := by
  cases operation <;> simp [isRendered]

def perform (now : Int) (u : Upkeep) : Operation → List Intent × Upkeep
  | rendered => ([], u.rendered now)
  | sent => ([], u.sent now)
  | flushEvent stamp => ([], (u.flushEvent stamp now).2)
  | loadStamp stamp => ([], { u with loadStamp := stamp })
  | frameStamp stamp => ([], { u with frameStamp := stamp })
  | loadState reached => ([], { u with loadState := reached })
  | hold frame => ([], u.hold frame)
  | tick hasPicture => u.plan now hasPicture

theorem perform_other {operation : Operation} (now : Int) (u : Upkeep)
    (unrendered : operation.isRendered = false) (untimed : operation.isTick = false) :
    (operation.perform now u).1 = [] ∧ (operation.perform now u).2.vigil = u.vigil := by
  cases operation with
  | rendered => cases unrendered
  | tick => cases untimed
  | flushEvent stamp =>
    refine ⟨rfl, ?_⟩
    simp only [perform, Upkeep.flushEvent]
    split <;> rfl
  | _ => exact ⟨rfl, rfl⟩

theorem heartbeat_last {operation : Operation} {now : Int} {u : Upkeep}
    (asked : .heartbeat ∈ (operation.perform now u).1) :
    operation.isRendered = false ∧
      ∃ others, (operation.perform now u).1 = others ++ [.heartbeat] ∧ .heartbeat ∉ others := by
  cases operation with
  | tick hasPicture =>
    refine ⟨rfl, ?_⟩
    cases u.plan_decision now hasPicture with
    | asks _ _ _ last _ => exact last
    | lasts _ none | spares _ _ none | waits _ _ _ none => exact absurd asked none
  | _ => cases asked

theorem perform_idle {u : Upkeep} (idle : u.idle = true) (now : Int) (operation : Operation) :
    .heartbeat ∉ (operation.perform now u).1 ∧ .resend ∉ (operation.perform now u).1 := by
  cases operation with
  | tick hasPicture =>
    constructor
    · intro planned
      rcases u.pulse_plan now hasPicture with ⟨none, -⟩ | ⟨-, outside, -⟩
      · exact none planned
      · exact absurd (outside.symm.trans idle) Bool.false_ne_true
    · intro planned
      exact absurd ((resend_mem_plan.mp planned).1.symm.trans idle) Bool.false_ne_true
  | _ => exact ⟨List.not_mem_nil, List.not_mem_nil⟩

end Operation

structure Entry where
  now : Int
  operation : Operation
  asked : List Intent
  deriving DecidableEq

abbrev Journal := List Entry

namespace Journal

def rendered? (j : Journal) : Option Int := (j.find? (·.operation.isRendered)).map (·.now)

def sinceRendered (j : Journal) : Journal := j.takeWhile (!·.operation.isRendered)

def ticks (j : Journal) : Journal := j.filter (·.operation.isTick)

def heartbeats (j : Journal) : Nat := (j.flatMap (·.asked)).count .heartbeat

def silence (began : Int) (j : Journal) (now : Int) : Nat :=
  counted (elapsed (j.rendered?.getD began) now)

/-- The ticks of the silence that lasts, from when it is longer than the threshold. -/
def late (timing : Timing) (began : Int) (j : Journal) : Journal :=
  j.sinceRendered.ticks.filter fun entry => timing.idleThreshold < j.silence began entry.now

/-- A tick saw the grace time reached. -/
def graceSpent (timing : Timing) (began : Int) (j : Journal) : Bool :=
  j.ticks.any fun entry => timing.startupGrace ≤ counted (elapsed began entry.now)

variable {timing : Timing} {began : Int} {entry : Entry} {j : Journal}

theorem sinceRendered_cons (unrendered : entry.operation.isRendered = false) :
    sinceRendered (entry :: j) = entry :: j.sinceRendered := by
  simp [sinceRendered, unrendered]

theorem rendered?_cons (unrendered : entry.operation.isRendered = false) :
    rendered? (entry :: j) = j.rendered? := by
  simp [rendered?, unrendered]

theorem sinceRendered_of_never (never : j.rendered? = none) : j.sinceRendered = j := by
  rw [rendered?, Option.map_eq_none_iff, List.find?_eq_none] at never
  rw [sinceRendered, List.takeWhile_eq_self_iff]
  simpa using never

theorem heartbeats_cons (entry : Entry) (j : Journal) :
    heartbeats (entry :: j) = entry.asked.count .heartbeat + j.heartbeats := by
  simp [heartbeats, List.flatMap_cons, List.count_append]

theorem late_cons (unrendered : entry.operation.isRendered = false) :
    late timing began (entry :: j) =
      if entry.operation.isTick = true ∧ timing.idleThreshold < j.silence began entry.now
        then entry :: j.late timing began else j.late timing began := by
  have same : silence began (entry :: j) = silence began j := by
    funext now
    rw [silence, silence, rendered?_cons unrendered]
  simp only [late, same, sinceRendered_cons unrendered, ticks, List.filter_cons]
  by_cases isTick : entry.operation.isTick = true
  · by_cases late : timing.idleThreshold < j.silence began entry.now <;> simp [isTick, late]
  · simp [isTick]

theorem graceSpent_cons (timing : Timing) (began : Int) (entry : Entry) (j : Journal) :
    graceSpent timing began (entry :: j) = (entry.operation.isTick &&
      decide (timing.startupGrace ≤ counted (elapsed began entry.now)) ||
        j.graceSpent timing began) := by
  cases isTick : entry.operation.isTick <;> simp [graceSpent, ticks, isTick]

end Journal

structure Diary where
  upkeep : Upkeep
  journal : Journal := []

namespace Diary

def start (timing : Timing) (began : Int) : Diary := { upkeep := .new timing began }

def step (d : Diary) (turn : Int × Operation) : Diary :=
  let after := turn.2.perform turn.1 d.upkeep
  ⟨after.2, ⟨turn.1, turn.2, after.1⟩ :: d.journal⟩

def run (d : Diary) (turns : List (Int × Operation)) : Diary := turns.foldl step d

structure Faithful (timing : Timing) (began : Int) (d : Diary) : Prop where
  settings : d.upkeep.timing = timing ∧ d.upkeep.began = began
  rendered : d.upkeep.lastRender = d.journal.rendered?
  heartbeats : d.journal.sinceRendered.heartbeats = if d.upkeep.idle then 1 else 0
  /-- Outside the idle cycle no late tick found the renderer silent. -/
  heard : d.upkeep.idle = false → ∀ last ∈ d.journal.rendered?,
    ∀ entry ∈ d.journal.late timing began, counted (elapsed last entry.now) < timing.renderCeiling
  spared : d.upkeep.idle = false → d.journal.rendered? = none →
    (d.journal.late timing began).length ≤ if d.upkeep.graceSpent then 1 else 0
  grace : d.upkeep.idle = false → d.journal.rendered? = none →
    d.upkeep.graceSpent = d.journal.graceSpent timing began

variable {timing : Timing} {began now : Int} {d : Diary} {v : Upkeep} {entry : Entry}

theorem Faithful.silence (faithful : d.Faithful timing began) (now : Int) :
    d.journal.silence began now = counted (d.upkeep.silence now) := by
  rw [Journal.silence, Upkeep.silence, faithful.rendered, faithful.settings.2]

theorem Faithful.quiet (faithful : d.Faithful timing began)
    (unrendered : entry.operation.isRendered = false) (none : .heartbeat ∉ entry.asked)
    (same : v.vigil = d.upkeep.vigil)
    (early : d.upkeep.idle = false → entry.operation.isTick = true →
      ¬ d.upkeep.Alive entry.now ∧ ¬ d.upkeep.Due entry.now) :
    Faithful timing began ⟨v, entry :: d.journal⟩ := by
  have silence := faithful.silence entry.now
  simp only [vigil, Vigil.mk.injEq] at same
  obtain ⟨sameTiming, sameBegan, sameRender, sameGrace, sameIdle⟩ := same
  have late (outside : d.upkeep.idle = false) :
      Journal.late timing began (entry :: d.journal) = d.journal.late timing began := by
    rw [Journal.late_cons unrendered, if_neg]
    -- A tick that comes late finds a heartbeat due.
    rintro ⟨isTick, late⟩
    rw [silence, ← faithful.settings.1] at late
    exact (early outside isTick).2 (Or.inl late)
  constructor
  case settings => rw [sameTiming, sameBegan]; exact faithful.settings
  case rendered => rw [sameRender, faithful.rendered, Journal.rendered?_cons unrendered]
  case heartbeats =>
    rw [sameIdle, Journal.sinceRendered_cons unrendered, Journal.heartbeats_cons,
      List.count_eq_zero.mpr none, Nat.zero_add, faithful.heartbeats]
  case heard =>
    intro outside
    rw [sameIdle] at outside
    rw [Journal.rendered?_cons unrendered, late outside]
    exact faithful.heard outside
  case spared =>
    intro outside
    rw [sameIdle] at outside
    rw [Journal.rendered?_cons unrendered, late outside, sameGrace]
    exact faithful.spared outside
  case grace =>
    intro outside never
    rw [sameIdle] at outside
    rw [Journal.rendered?_cons unrendered] at never
    rw [sameGrace, Journal.graceSpent_cons]
    cases found : entry.operation.isTick &&
        decide (timing.startupGrace ≤ counted (elapsed began entry.now)) with
    | false => exact faithful.grace outside never
    | true =>
      obtain ⟨isTick, reached⟩ := Bool.and_eq_true_iff.mp found
      refine Bool.ne_false_iff.mp fun unspent => (early outside isTick).1 ?_
      rw [Alive, faithful.rendered, never, faithful.settings.1, faithful.settings.2]
      exact ⟨unspent, of_decide_eq_true reached⟩

theorem Faithful.rendered_step (faithful : d.Faithful timing began) (now : Int) :
    (d.step (now, .rendered)).Faithful timing began := by
  refine ⟨faithful.settings, rfl, rfl, ?_, ?_, ?_⟩
  · intro _ last _ entry member
    cases member
  · intro _ unrendered
    cases unrendered
  · intro _ unrendered
    cases unrendered

/-- A tick that finds the renderer alive is not late for one that rendered; for one that never did
it is the only late one. -/
theorem Faithful.spares (faithful : d.Faithful timing began) (outside : d.upkeep.idle = false)
    (unrendered : entry.operation.isRendered = false) (isTick : entry.operation.isTick = true)
    (alive : d.upkeep.Alive entry.now) (none : .heartbeat ∉ entry.asked)
    (same : v.vigil = { d.upkeep.vigil with
      graceSpent := d.upkeep.graceSpent || d.upkeep.lastRender.isNone }) :
    Faithful timing began ⟨v, entry :: d.journal⟩ := by
  simp only [vigil, Vigil.mk.injEq] at same
  obtain ⟨sameTiming, sameBegan, sameRender, sameGrace, sameIdle⟩ := same
  rw [Alive, faithful.rendered, faithful.settings.1, faithful.settings.2] at alive
  rw [faithful.rendered] at sameGrace
  constructor
  case settings => rw [sameTiming, sameBegan]; exact faithful.settings
  case rendered => rw [sameRender, faithful.rendered, Journal.rendered?_cons unrendered]
  case heartbeats =>
    rw [sameIdle, Journal.sinceRendered_cons unrendered, Journal.heartbeats_cons,
      List.count_eq_zero.mpr none, Nat.zero_add, faithful.heartbeats]
  case heard =>
    intro _ last rendered other member
    rw [Journal.rendered?_cons unrendered] at rendered
    rw [Option.mem_def.mp rendered] at alive
    have older : other = entry ∨ other ∈ d.journal.late timing began := by
      rw [Journal.late_cons unrendered] at member
      split at member
      · exact List.mem_cons.mp member
      · exact Or.inr member
    rcases older with rfl | older
    · exact alive
    · exact faithful.heard outside last rendered other older
  case spared =>
    intro _ never
    rw [Journal.rendered?_cons unrendered] at never
    rw [never] at alive
    have before := faithful.spared outside never
    rw [alive.1, if_neg Bool.false_ne_true] at before
    rw [sameGrace, never, Option.isNone_none, Bool.or_true, if_pos rfl,
      Journal.late_cons unrendered]
    split
    · rw [List.length_cons]
      omega
    · omega
  case grace =>
    intro _ never
    rw [Journal.rendered?_cons unrendered] at never
    rw [never] at alive
    rw [sameGrace, never, Journal.graceSpent_cons, isTick, decide_eq_true alive.2]
    simp

theorem Faithful.asks (faithful : d.Faithful timing began) (outside : d.upkeep.idle = false)
    (unrendered : entry.operation.isRendered = false)
    (once : entry.asked.count .heartbeat = 1)
    (same : v.vigil = { d.upkeep.vigil with idle := true }) :
    Faithful timing began ⟨v, entry :: d.journal⟩ := by
  simp only [vigil, Vigil.mk.injEq] at same
  obtain ⟨sameTiming, sameBegan, sameRender, -, started⟩ := same
  have inside : v.idle ≠ false := by simp [started]
  refine ⟨?_, ?_, ?_, fun outside => absurd outside inside, fun outside => absurd outside inside,
    fun outside => absurd outside inside⟩
  · rw [sameTiming, sameBegan]; exact faithful.settings
  · rw [sameRender, faithful.rendered, Journal.rendered?_cons unrendered]
  · rw [started, Journal.sinceRendered_cons unrendered, Journal.heartbeats_cons, once,
      faithful.heartbeats, outside]
    rfl

theorem Faithful.other {operation : Operation} (faithful : d.Faithful timing began) (now : Int)
    (unrendered : operation.isRendered = false) (untimed : operation.isTick = false) :
    (d.step (now, operation)).Faithful timing began := by
  obtain ⟨none, same⟩ := operation.perform_other now d.upkeep unrendered untimed
  refine faithful.quiet unrendered ?_ same ?_
  · rw [none]
    exact List.not_mem_nil
  · intro _ isTick
    exact absurd (untimed.symm.trans isTick) Bool.false_ne_true

theorem Faithful.tick (faithful : d.Faithful timing began) (now : Int) (hasPicture : Bool) :
    (d.step (now, .tick hasPicture)).Faithful timing began := by
  cases d.upkeep.plan_decision now hasPicture with
  | lasts inside none same =>
    refine faithful.quiet rfl none same ?_
    intro outside
    exact absurd (outside.symm.trans inside) Bool.false_ne_true
  | spares outside alive none same => exact faithful.spares outside rfl rfl alive none same
  | waits outside silent early none same =>
    exact faithful.quiet rfl none same fun _ _ => ⟨silent, early⟩
  | asks outside _ _ last same =>
    obtain ⟨others, asked, different⟩ := last
    have once : (d.upkeep.plan now hasPicture).1.count .heartbeat = 1 := by
      rw [asked, List.count_append, List.count_eq_zero.mpr different]
      rfl
    exact faithful.asks outside rfl once same

theorem Faithful.step (faithful : d.Faithful timing began) (turn : Int × Operation) :
    (d.step turn).Faithful timing began := by
  obtain ⟨now, operation⟩ := turn
  cases operation with
  | rendered => exact faithful.rendered_step now
  | tick hasPicture => exact faithful.tick now hasPicture
  | _ => exact faithful.other now rfl rfl

theorem faithful_start (timing : Timing) (began : Int) :
    (start timing began).Faithful timing began := by
  refine ⟨⟨rfl, rfl⟩, rfl, rfl, ?_, ?_, ?_⟩
  · intro _ last _ entry member
    cases member
  · intro _ _
    exact Nat.zero_le _
  · intro _ _
    rfl

theorem Faithful.run (faithful : d.Faithful timing began) (turns : List (Int × Operation)) :
    (d.run turns).Faithful timing began := by
  induction turns generalizing d with
  | nil => exact faithful
  | cons turn rest ih => exact ih (faithful.step turn)

theorem exists_run_of_suffix {turns : List (Int × Operation)} {older : Journal}
    (suffix : entry :: older <:+ ((start timing began).run turns).journal) :
    ∃ before, ((start timing began).run before).journal = older ∧ entry.asked =
      (entry.operation.perform entry.now ((start timing began).run before).upkeep).1 := by
  induction turns using List.reverseRecOn with
  | nil => exact absurd (List.suffix_nil.mp suffix) (List.cons_ne_nil entry older)
  | append_singleton turns turn ih =>
    rw [run, List.foldl_append, ← run] at suffix
    rcases List.suffix_cons_iff.mp suffix with last | earlier
    · obtain ⟨rfl, rfl⟩ := List.cons.inj last
      exact ⟨turns, rfl, rfl⟩
    · exact ih earlier

theorem Faithful.idle_of_heartbeat (faithful : d.Faithful timing began) {newer older : Journal}
    (told : d.journal = newer ++ entry :: older) (asked : .heartbeat ∈ entry.asked)
    (quiet : entry.operation.isRendered = false)
    (unrendered : ∀ other ∈ newer, other.operation.isRendered = false) :
    d.upkeep.idle = true := by
  have since : entry ∈ d.journal.sinceRendered := by
    rw [Journal.sinceRendered, told, List.takeWhile_append_of_pos]
    · simp [quiet]
    · intro other member
      simp [unrendered other member]
  have some : 0 < d.journal.sinceRendered.heartbeats :=
    List.count_pos_iff.mpr (List.mem_flatMap.mpr ⟨entry, since, asked⟩)
  rw [faithful.heartbeats] at some
  by_cases idle : d.upkeep.idle = true
  · exact idle
  · rw [if_neg idle] at some
    cases some

end Diary

open Diary in
/-- However the renderer, the loads and the timer interleave: a tick asks for at most one
heartbeat, as the last thing; between it and the next heartbeat, or the next repetition of the last
picture, something is rendered; and a silence that is long enough and found so by a tick has had
exactly one. If nothing was ever rendered, the second tick at the latest finds it so. A tick counts
in whole milliseconds: where the threshold is given in these, a silence is found long enough from
one millisecond behind it. -/
theorem run_one_heartbeat (timing : Timing) (began : Int) (turns : List (Int × Operation)) :
    let d := (start timing began).run turns
    (∀ entry ∈ d.journal, .heartbeat ∈ entry.asked →
      ∃ others, entry.asked = others ++ [.heartbeat] ∧ .heartbeat ∉ others) ∧
    (∀ later middle earlier older, later :: (middle ++ earlier :: older) <:+ d.journal →
      .heartbeat ∈ earlier.asked → .heartbeat ∈ later.asked ∨ .resend ∈ later.asked →
        ∃ entry ∈ middle, entry.operation = .rendered) ∧
    (∀ last ∈ d.journal.rendered?,
      (∃ entry ∈ d.journal.late timing began,
        timing.renderCeiling ≤ counted (elapsed last entry.now)) →
          d.upkeep.idle = true ∧ d.journal.sinceRendered.heartbeats = 1) ∧
    (d.journal.rendered? = none → 2 ≤ (d.journal.late timing began).length →
      d.upkeep.idle = true ∧ d.journal.heartbeats = 1) ∧
    ∀ threshold ceiling, timing.idleThreshold = millis threshold →
      timing.renderCeiling = millis ceiling → ∀ entry ∈ d.journal.sinceRendered.ticks,
        let silence := elapsed (d.journal.rendered?.getD began) entry.now
        silence < millis 0x10000000000000000 →
          (entry ∈ d.journal.late timing began ↔ millis (threshold + 1) ≤ silence) ∧
          (timing.renderCeiling ≤ counted silence ↔ millis ceiling ≤ silence) := by
  intro d
  have faithful (turns) : ((start timing began).run turns).Faithful timing began :=
    (faithful_start timing began).run turns
  have one (idle : d.upkeep.idle = true) : d.journal.sinceRendered.heartbeats = 1 := by
    rw [(faithful turns).heartbeats, if_pos idle]
  refine ⟨?_, ?_, ?_, ?_, ?_⟩
  · intro entry member asked
    obtain ⟨newer, older, told⟩ := List.mem_iff_append.mp member
    obtain ⟨before, -, done⟩ := exists_run_of_suffix ⟨newer, told.symm⟩
    rw [done] at asked ⊢
    exact (Operation.heartbeat_last asked).2
  · intro later middle earlier older suffix heartbeat again
    obtain ⟨before, told, done⟩ := exists_run_of_suffix suffix
    have quiet : earlier.operation.isRendered = false := by
      have shorter : earlier :: older <:+ d.journal :=
        List.IsSuffix.trans ⟨later :: middle, rfl⟩ suffix
      obtain ⟨_, -, done⟩ := exists_run_of_suffix shorter
      exact (Operation.heartbeat_last (done ▸ heartbeat)).1
    by_contra unrendered
    -- With nothing rendered in between, the cycle that the heartbeat started still lasts.
    have idle := (faithful before).idle_of_heartbeat told heartbeat quiet fun other member =>
      Bool.eq_false_iff.mpr fun rendered =>
        unrendered ⟨other, member, Operation.isRendered_iff.mp rendered⟩
    have none := Operation.perform_idle idle later.now later.operation
    rw [← done] at none
    exact again.elim none.1 none.2
  · intro last rendered ⟨entry, late, silent⟩
    have idle : d.upkeep.idle = true := by
      refine Bool.ne_false_iff.mp fun outside => ?_
      exact absurd ((faithful turns).heard outside last rendered entry late) (Nat.not_lt.mpr silent)
    exact ⟨idle, one idle⟩
  · intro never late
    have idle : d.upkeep.idle = true := by
      refine Bool.ne_false_iff.mp fun outside => ?_
      have most : (d.journal.late timing began).length ≤ if d.upkeep.graceSpent then 1 else 0 :=
        (faithful turns).spared outside never
      split at most <;> omega
    refine ⟨idle, ?_⟩
    rw [← Journal.sinceRendered_of_never never]
    exact one idle
  · intro threshold ceiling sameThreshold sameCeiling entry tick silence short
    rw [Journal.late, List.mem_filter, sameThreshold, sameCeiling]
    have late : millis threshold < d.journal.silence began entry.now ↔
        millis (threshold + 1) ≤ silence := millis_lt_counted_iff short
    refine ⟨?_, millis_le_counted_iff short⟩
    rw [and_iff_right tick, decide_eq_true_iff, late]

open Diary in
theorem run_one_heartbeat_each :
    (let d := (start {} 0).run [(millis 8001, .tick false), (millis 8002, .tick false)]
     d.upkeep.idle = true ∧ d.journal.heartbeats = 1) ∧
    let d := (start {} 0).run [(millis 8001, .tick false), (millis 8002, .tick false),
      (millis 8003, .rendered), (millis 16004, .tick true)]
    d.upkeep.idle = true ∧ d.journal.sinceRendered.heartbeats = 1 ∧ d.journal.heartbeats = 2 := by
  obtain ⟨-, -, -, never, -⟩ := run_one_heartbeat {} 0
    [(millis 8001, .tick false), (millis 8002, .tick false)]
  obtain ⟨-, -, rendered, -, found⟩ := run_one_heartbeat {} 0
    [(millis 8001, .tick false), (millis 8002, .tick false), (millis 8003, .rendered),
      (millis 16004, .tick true)]
  obtain ⟨late, silent⟩ := found 8000 2000 rfl rfl _ List.mem_cons_self (by decide)
  obtain ⟨idle, one⟩ := rendered (millis 8003) (by decide)
    ⟨_, late.mpr (by decide), silent.mpr (by decide)⟩
  exact ⟨never (by decide) (by decide), idle, one, by decide⟩

open Diary in
/-- Half a millisecond behind the threshold a tick finds the silence too short, although a load is
newer than the last heartbeat and so nothing but the silence counts. -/
theorem silence_unheard :
    ¬ ∀ (began : Int) (turns : List (Int × Operation)) (last : Int),
      let timing : Timing := {}
      let d := (start timing began).run turns
      (began :: turns.map Prod.fst).Pairwise (· ≤ ·) → d.journal.rendered? = some last →
      (∃ entry ∈ d.journal.sinceRendered.ticks, timing.idleThreshold < elapsed last entry.now ∧
        timing.renderCeiling ≤ elapsed last entry.now) → d.upkeep.idle = true := by
  intro heard
  have idle := heard 0
    [(0, .rendered), (0, .frameStamp 1), (millis 8000 + millis 1 / 2, .tick false)] 0
    (by decide) (by decide) (by decide)
  exact absurd idle (by decide)

end Upkeep
end ScreenPreview.Stream
