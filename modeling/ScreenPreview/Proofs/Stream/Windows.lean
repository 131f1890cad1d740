import Mathlib.Data.List.Induction
import ScreenPreview.Proofs.Stream.Locks

/-!
The counting window of static mode.

A change of content opens the window, and so does the first look at it if nothing has changed yet;
a later look closes it once it has run out. Instants never decrease. Then a frame that is judged
behind a look passes in dynamic mode or while the window lasts, whatever it reports to have changed
(`run_judge`). A window is open or has run out, also in a feed (`Pool.settled_run`), so no frame is
ever judged between two windows.
-/
namespace ScreenPreview.Stream

namespace Stillness

inductive Operation where
  | contentChanged (now : Int)
  | refresh (now : Int)
  | judge (change : Int32)
  | mode (chosen : Screen.Mode)
  | card (on : Bool)
  | askCard (change : Int32)
  deriving DecidableEq

namespace Operation

def change? : Operation → Option Int
  | contentChanged now => some now
  | _ => none

def look? : Operation → Option Int
  | refresh now => some now
  | _ => none

def mode? : Operation → Option Screen.Mode
  | mode chosen => some chosen
  | _ => none

def clock? : Operation → Option Int
  | contentChanged now => some now
  | refresh now => some now
  | _ => none

end Operation

def perform (s : Stillness) : Operation → Stillness
  | .contentChanged now => s.contentChanged now
  | .refresh now => s.refresh now
  | .judge change => (s.judge change).2
  | .mode chosen => { s with mode := chosen }
  | .card on => { s with card := on }
  | .askCard _ => s

def run (s : Stillness) (past : List Operation) : Stillness := past.foldl perform s

def clocks (past : List Operation) : List Int := past.filterMap Operation.clock?

/-- When the window opened: at the last change of content, or at the first look if none came. -/
def opened? (past : List Operation) : Option Int :=
  (past.filterMap Operation.change?).getLast?.or (past.filterMap Operation.look?).head?

def lastMode (mode : Screen.Mode) (past : List Operation) : Screen.Mode :=
  (past.filterMap Operation.mode?).getLast?.getD mode

/-! ### One operation -/

structure Kept (mode : Screen.Mode) (window : Nat) (past : List Operation) (s : Stillness) :
    Prop where
  length_eq : s.window = window
  mode_eq : s.mode = lastMode mode past
  open_since : s.counting = true → s.since = opened? past
  closed : s.counting = false → ∃ since, opened? past = some since ∧
    ∃ late ∈ clocks past, since + window ≤ late

variable {s : Stillness} {mode : Screen.Mode} {window : Nat} {past : List Operation}

theorem run_append (s : Stillness) (past later : List Operation) :
    s.run (past ++ later) = (s.run past).run later :=
  List.foldl_append

theorem run_concat (s : Stillness) (past : List Operation) (o : Operation) :
    s.run (past ++ [o]) = (s.run past).perform o :=
  s.run_append past [o]

theorem judge_keeps (s : Stillness) (change : Int32) :
    ∃ seeded, (s.judge change).2 = { s with seeded } := by
  unfold judge
  split
  · exact ⟨s.seeded, rfl⟩
  · split
    · exact ⟨s.seeded, rfl⟩
    · split
      · split
        · exact ⟨true, rfl⟩
        · exact ⟨s.seeded, rfl⟩
      · split
        · exact ⟨true, rfl⟩
        · exact ⟨s.seeded, rfl⟩

inductive Looked (s : Stillness) (now : Int) : Stillness → Prop
  | closed (counting : s.counting = false) : Looked s now s
  | lasts (counting : s.counting = true) (inside : elapsed (s.since.getD now) now < s.window) :
    Looked s now { s with since := some (s.since.getD now) }
  | ended (counting : s.counting = true) (outside : s.window ≤ elapsed (s.since.getD now) now) :
    Looked s now { s with since := some (s.since.getD now), settled := true, counting := false }

theorem looked_refresh (s : Stillness) (now : Int) : s.Looked now (s.refresh now) := by
  unfold refresh
  split
  · rename_i counting
    dsimp only
    split
    · rename_i outside
      exact .ended counting outside
    · rename_i inside
      exact .lasts counting (Nat.lt_of_not_le inside)
  · rename_i closed
    exact .closed (Bool.eq_false_iff.mpr closed)

theorem settled_perform (either : s.settled = !s.counting) (o : Operation) :
    (s.perform o).settled = !(s.perform o).counting := by
  cases o with
  | refresh now =>
    have looked := s.looked_refresh now
    rw [perform]
    generalize s.refresh now = t at looked ⊢
    cases looked with
    | closed => exact either
    | lasts => exact either
    | ended => rfl
  | judge change =>
    obtain ⟨seeded, same⟩ := s.judge_keeps change
    rw [perform, same]
    exact either
  | contentChanged now => rfl
  | _ => exact either

theorem settled_run (either : s.settled = !s.counting) (past : List Operation) :
    (s.run past).settled = !(s.run past).counting := by
  induction past generalizing s with
  | nil => exact either
  | cons o rest ih => exact ih (settled_perform either o)

theorem mode_perform (s : Stillness) {o : Operation} (plain : o.mode? = none) :
    (s.perform o).mode = s.mode := by
  cases o with
  | refresh now =>
    have looked := s.looked_refresh now
    rw [perform]
    generalize s.refresh now = t at looked ⊢
    cases looked <;> rfl
  | judge change =>
    obtain ⟨seeded, same⟩ := s.judge_keeps change
    rw [perform, same]
  | mode chosen => cases plain
  | _ => rfl

theorem mode_run (s : Stillness) {operations : List Operation}
    (plain : ∀ o ∈ operations, o.mode? = none) : (s.run operations).mode = s.mode := by
  induction operations generalizing s with
  | nil => rfl
  | cons o rest ih =>
    rw [List.forall_mem_cons] at plain
    exact (ih (s.perform o) plain.2).trans (s.mode_perform plain.1)

theorem mem_clocks_of_opened {since : Int} (opened : opened? past = some since) :
    since ∈ clocks past := by
  rw [opened?, Option.or_eq_some_iff] at opened
  rw [clocks, List.mem_filterMap]
  rcases opened with changed | ⟨-, looked⟩
  · obtain ⟨o, member, same⟩ := List.mem_filterMap.mp (List.mem_of_getLast? changed)
    refine ⟨o, member, ?_⟩
    cases o <;> first | exact same | cases same
  · obtain ⟨o, member, same⟩ := List.mem_filterMap.mp (List.mem_of_mem_head? looked)
    refine ⟨o, member, ?_⟩
    cases o <;> first | exact same | cases same

theorem opened_concat (past : List Operation) (o : Operation) :
    opened? (past ++ [o]) = o.change?.or ((opened? past).or o.look?) := by
  have changes : ((past ++ [o]).filterMap Operation.change?).getLast? =
      o.change?.or (past.filterMap Operation.change?).getLast? := by
    rw [List.filterMap_append, List.getLast?_append]
    cases o <;> rfl
  have looks : ((past ++ [o]).filterMap Operation.look?).head? =
      (past.filterMap Operation.look?).head?.or o.look? := by
    rw [List.filterMap_append, List.head?_append]
    cases o <;> rfl
  rw [opened?, opened?, changes, looks, Option.or_assoc, Option.or_assoc]

theorem lastMode_concat (mode : Screen.Mode) (past : List Operation) (o : Operation) :
    lastMode mode (past ++ [o]) = o.mode?.getD (lastMode mode past) := by
  rw [lastMode, List.filterMap_append, List.getLast?_append]
  cases o <;> rfl

theorem clocks_concat (past : List Operation) (o : Operation) :
    clocks (past ++ [o]) = clocks past ++ o.clock?.toList := by
  rw [clocks, List.filterMap_append]
  cases o <;> rfl

theorem Kept.untimed (kept : Kept mode window past s) {o : Operation} (untimed : o.clock? = none)
    {t : Stillness} (same : t.window = s.window ∧ t.counting = s.counting ∧ t.since = s.since)
    (chosen : t.mode = o.mode?.getD s.mode) : Kept mode window (past ++ [o]) t := by
  have unopened : opened? (past ++ [o]) = opened? past := by
    rw [opened_concat]
    cases o <;> first | exact Option.or_none | cases untimed
  have clocks : clocks (past ++ [o]) = clocks past := by
    rw [clocks_concat, untimed, Option.toList_none, List.append_nil]
  obtain ⟨window_eq, counting, since⟩ := same
  refine ⟨window_eq.trans kept.length_eq, ?_, ?_, ?_⟩
  · rw [chosen, lastMode_concat, kept.mode_eq]
  · rw [counting, since, unopened]
    exact kept.open_since
  · rw [counting, unopened, clocks]
    exact kept.closed

theorem Kept.look (kept : Kept mode window past s) {now : Int}
    (steady : ∀ earlier ∈ clocks past, earlier ≤ now) :
    ∃ since, opened? (past ++ [.refresh now]) = some since ∧
      ((s.refresh now).counting = true ↔ now - since < window) ∧
      ((s.refresh now).counting = true → (s.refresh now).since = some since) := by
  have opens : opened? (past ++ [.refresh now]) = (opened? past).or (some now) := by
    rw [opened_concat]
    rfl
  have early (since : Int) (opened : opened? (past ++ [.refresh now]) = some since) :
      since ≤ now := by
    have member := mem_clocks_of_opened opened
    rw [clocks_concat, List.mem_append] at member
    rcases member with before | here
    · exact steady since before
    · exact Int.le_of_eq (List.mem_singleton.mp here)
  have length := kept.length_eq
  have looked := s.looked_refresh now
  generalize s.refresh now = t at looked ⊢
  cases looked with
  | closed counting =>
    obtain ⟨since, opened, late, member, outside⟩ := kept.closed counting
    have past_window := steady late member
    refine ⟨since, by rw [opens, opened]; rfl, ?_, by simp [counting]⟩
    simp only [counting, Bool.false_eq_true, false_iff]
    omega
  | lasts counting inside =>
    have opened : opened? (past ++ [.refresh now]) = some (s.since.getD now) := by
      rw [opens, kept.open_since counting]
      cases opened? past <;> rfl
    refine ⟨_, opened, ?_, fun _ => rfl⟩
    unfold elapsed at inside
    simp only [counting, true_iff]
    omega
  | ended counting outside =>
    have opened : opened? (past ++ [.refresh now]) = some (s.since.getD now) := by
      rw [opens, kept.open_since counting]
      cases opened? past <;> rfl
    have before := early _ opened
    refine ⟨_, opened, ?_, fun _ => rfl⟩
    unfold elapsed at outside
    simp only [Bool.false_eq_true, false_iff]
    omega

theorem Kept.refresh (kept : Kept mode window past s) {now : Int}
    (steady : ∀ earlier ∈ clocks past, earlier ≤ now) :
    Kept mode window (past ++ [.refresh now]) (s.refresh now) := by
  obtain ⟨since, opened, lasts, same⟩ := kept.look steady
  have keeps : (s.refresh now).window = s.window ∧ (s.refresh now).mode = s.mode := by
    have looked := s.looked_refresh now
    generalize s.refresh now = t at looked ⊢
    cases looked <;> exact ⟨rfl, rfl⟩
  have unchosen : lastMode mode (past ++ [.refresh now]) = lastMode mode past :=
    lastMode_concat mode past _
  refine ⟨keeps.1.trans kept.length_eq, ?_, ?_, ?_⟩
  · rw [keeps.2, kept.mode_eq, unchosen]
  · intro counting
    rw [same counting, opened]
  · intro closed
    have outside : ¬ now - since < window := by simp [← lasts, closed]
    refine ⟨since, opened, now, by simp [clocks_concat, Operation.clock?], ?_⟩
    omega

theorem Kept.perform (kept : Kept mode window past s) {o : Operation}
    (steady : (clocks (past ++ [o])).Pairwise (· ≤ ·)) :
    Kept mode window (past ++ [o]) (s.perform o) := by
  cases o with
  | contentChanged now =>
    have opens : opened? (past ++ [.contentChanged now]) = some now := by
      rw [opened_concat]
      rfl
    have unchosen : lastMode mode (past ++ [.contentChanged now]) = lastMode mode past :=
      lastMode_concat mode past _
    refine ⟨kept.length_eq, kept.mode_eq.trans unchosen.symm, fun _ => opens.symm, ?_⟩
    intro closed
    cases closed
  | refresh now =>
    rw [clocks_concat, List.pairwise_append] at steady
    exact kept.refresh fun earlier member => steady.2.2 earlier member now List.mem_cons_self
  | judge change =>
    obtain ⟨seeded, same⟩ := s.judge_keeps change
    rw [Stillness.perform, same]
    exact kept.untimed rfl ⟨rfl, rfl, rfl⟩ rfl
  | mode chosen => exact kept.untimed rfl ⟨rfl, rfl, rfl⟩ rfl
  | card on => exact kept.untimed rfl ⟨rfl, rfl, rfl⟩ rfl
  | askCard change => exact kept.untimed rfl ⟨rfl, rfl, rfl⟩ rfl

/-! ### Runs -/

theorem kept_run (mode : Screen.Mode) (window : Nat) {past : List Operation}
    (steady : (clocks past).Pairwise (· ≤ ·)) :
    Kept mode window past (run { mode, window } past) := by
  induction past using List.reverseRecOn with
  | nil => exact ⟨rfl, rfl, fun _ => rfl, fun closed => by cases closed⟩
  | append_singleton past o ih =>
    have earlier : (clocks past).Pairwise (· ≤ ·) := by
      rw [clocks_concat, List.pairwise_append] at steady
      exact steady.1
    rw [run_concat]
    exact (ih earlier).perform steady

/-- No frame is judged between two windows. -/
theorem judge_iff (either : s.settled = !s.counting) (change : Int32) :
    (s.judge change).1 = true ↔ s.mode = .dynamic ∨ s.counting = true := by
  unfold judge
  by_cases dynamic : s.mode = .dynamic
  · simp [dynamic]
  · cases counting : s.counting <;> simp [dynamic, either, counting]

theorem Kept.judge_look_iff (kept : Kept mode window past s) (either : s.settled = !s.counting)
    {now : Int} (latest : ∀ earlier ∈ clocks past, earlier ≤ now) :
    ∃ since, opened? (past ++ [.refresh now]) = some since ∧ ∀ change,
      ((s.refresh now).judge change).1 = true ↔
        lastMode mode past = .dynamic ∨ now - since < window := by
  obtain ⟨since, opened, lasts, -⟩ := kept.look latest
  have mode_eq : (s.refresh now).mode = lastMode mode past :=
    (kept.refresh latest).mode_eq.trans (lastMode_concat mode past _)
  have either : (s.refresh now).settled = !(s.refresh now).counting :=
    settled_perform either (.refresh now)
  refine ⟨since, opened, fun change => ?_⟩
  rw [judge_iff either, mode_eq, ← lasts]

/-- A frame that is judged behind a look passes exactly in dynamic mode or while the window lasts
that the last change of content has opened, or the first look if there was no such change. After
any operations the window is either open or has run out. -/
theorem run_judge (mode : Screen.Mode) (window : Nat) {past : List Operation} {now : Int}
    (steady : (clocks (past ++ [.refresh now])).Pairwise (· ≤ ·)) :
    let s := run { mode, window } (past ++ [.refresh now])
    (∃ since, opened? (past ++ [.refresh now]) = some since ∧ ∀ change,
      (s.judge change).1 = true ↔ lastMode mode past = .dynamic ∨ now - since < window) ∧
    ∀ operations,
      (run { mode, window } operations).settled = !(run { mode, window } operations).counting := by
  intro s
  have either := settled_run (s := { mode, window }) rfl
  rw [clocks_concat, List.pairwise_append] at steady
  have kept := kept_run mode window steady.1
  have latest : ∀ earlier ∈ clocks past, earlier ≤ now := fun earlier member =>
    steady.2.2 earlier member now List.mem_cons_self
  have behind : s = (run { mode, window } past).refresh now := run_concat _ past _
  rw [behind]
  exact ⟨kept.judge_look_iff (either past) latest, either⟩

theorem run_judge_at_end_of_window :
    let past : List Operation :=
      [.judge 7, .refresh 40, .contentChanged 100, .refresh 300, .mode .dynamic, .judge 0,
        .card true, .mode .static]
    (clocks (past ++ [.refresh 599])).Pairwise (· ≤ ·) ∧
      (∀ change, ((run ⟨.static, 500, false, false, true, none, false⟩
        (past ++ [.refresh 599])).judge change).1 = true) ∧
      (clocks (past ++ [.refresh 600])).Pairwise (· ≤ ·) ∧
      ∀ change, ((run ⟨.static, 500, false, false, true, none, false⟩
        (past ++ [.refresh 600])).judge change).1 = false := by
  intro past
  have early : (clocks (past ++ [.refresh 599])).Pairwise (· ≤ ·) := by decide
  have late : (clocks (past ++ [.refresh 600])).Pairwise (· ≤ ·) := by decide
  obtain ⟨since, opened, passes⟩ := (run_judge .static 500 early).1
  obtain ⟨later, reopened, stops⟩ := (run_judge .static 500 late).1
  cases opened
  cases reopened
  refine ⟨early, fun change => (passes change).mpr (Or.inr (by decide)), late, fun change => ?_⟩
  rw [← Bool.not_eq_true]
  exact fun passed => absurd ((stops change).mp passed) (by decide)

end Stillness

/-! ### Feeds -/

variable {ω : Type} {sink : Sink ω}

theorem Request.stillness_enter (request : Request) (now : Int) (f : Feed) :
    ∃ operations : List Stillness.Operation,
      (request.enter now f).2.stillness = f.stillness.run operations ∧
        ∀ o ∈ operations, o.mode? = none := by
  cases request with
  | frame pixels =>
    have admitted : ∃ operations : List Stillness.Operation,
        (f.admitLive now pixels.change).2.stillness = f.stillness.run operations ∧
          ∀ o ∈ operations, o.mode? = none := by
      unfold Feed.admitLive
      split
      · exact ⟨[], rfl, nofun⟩
      · refine ⟨[.refresh now, .judge pixels.change], ?_, by simp [Stillness.Operation.mode?]⟩
        dsimp only
        split
        · rfl
        · split <;> rfl
    simp only [enter, Call.frame]
    split
    · exact ⟨[], rfl, nofun⟩
    · split <;> simpa [*] using admitted
  | loadFrame pixels =>
    have kept : (f.admitLoad pixels).2.stillness = f.stillness := by
      obtain ⟨_, same⟩ := f.admitLoad_feed pixels
      rw [same]
    refine ⟨[], ?_, nofun⟩
    simp only [enter, Call.loadFrame]
    split
    · rfl
    · split <;> simp_all [Stillness.run]
  | intent due => exact ⟨[], rfl, nofun⟩
  | fit => exact ⟨[], rfl, nofun⟩

theorem Call.Section.stillness_eq {c d : Call} {f g : Feed} {events : List Event}
    (taken : Call.Section sink c f events d g) : g.stillness = f.stillness := by
  cases taken with
  | encode job =>
    unfold Feed.encode
    split <;> rfl
  | packed packing packs =>
    obtain ⟨_, _, -, rfl⟩ := Feed.pack_ok packs
    cases packing <;> rfl
  | unpacked packing => cases packing <;> rfl
  | record purpose => cases purpose <;> rfl
  | _ => rfl

namespace Pool

theorem stillness_step (sink : Sink ω) (p : Pool ω) (move : Move ω) :
    ∃ operations : List Stillness.Operation,
      (p.step sink move).feed.stillness = p.feed.stillness.run operations ∧
        ((∀ now chosen, move ≠ .control now (.mode chosen)) →
          ∀ o ∈ operations, o.mode? = none) := by
  cases move with
  | start now request =>
    obtain ⟨operations, same, plain⟩ := request.stillness_enter now p.feed
    exact ⟨operations, same, fun _ => plain⟩
  | advance now number =>
    refine ⟨[], ?_, nofun⟩
    rcases p.step_advance sink now number with same | ⟨c, d, events, feed, world, -, -, taken, step⟩
    · rw [same]
      rfl
    · rw [step]
      exact taken.stillness_eq
  | control now change =>
    rcases p.step_control sink now change with same | ⟨-, step⟩
    · exact ⟨[], by rw [same]; rfl, nofun⟩
    · rw [step]
      cases change with
      | tick => exact ⟨[.refresh now], rfl, by simp [Stillness.Operation.mode?]⟩
      | contentChanged => exact ⟨[.contentChanged now], rfl, by simp [Stillness.Operation.mode?]⟩
      | mode chosen => exact ⟨[.mode chosen], rfl, fun unset => absurd rfl (unset now chosen)⟩
      | card on => exact ⟨[.card on], rfl, by simp [Stillness.Operation.mode?]⟩
      | _ => exact ⟨[], rfl, nofun⟩
  | world world => exact ⟨[], rfl, nofun⟩

theorem mode_step (sink : Sink ω) (p : Pool ω) {move : Move ω}
    (unset : ∀ now chosen, move ≠ .control now (.mode chosen)) :
    (p.step sink move).feed.stillness.mode = p.feed.stillness.mode := by
  obtain ⟨operations, same, plain⟩ := p.stillness_step sink move
  rw [same, Stillness.mode_run _ (plain unset)]

theorem mode_run (sink : Sink ω) (p : Pool ω) {moves : List (Move ω)}
    (unset : ∀ now chosen, .control now (.mode chosen) ∉ moves) :
    (p.run sink moves).feed.stillness.mode = p.feed.stillness.mode := by
  induction moves generalizing p with
  | nil => rfl
  | cons move rest ih =>
    have first : (p.step sink move).feed.stillness.mode = p.feed.stillness.mode :=
      p.mode_step sink fun now chosen same => unset now chosen (same ▸ List.mem_cons_self)
    have later := ih (p.step sink move) fun now chosen member =>
      unset now chosen (List.mem_cons_of_mem _ member)
    exact later.trans first

theorem settled_run (sink : Sink ω) (settings : Settings) (geometry : Screen.Geometry)
    (encoder : Picture.Encoder) (reserve : Nat) (began : Int) (world : ω) (moves : List (Move ω)) :
    let p := (start (.new settings geometry encoder reserve began) world).run sink moves
    p.feed.stillness.settled = !p.feed.stillness.counting := by
  have either :
      (start (.new settings geometry encoder reserve began) world).feed.stillness.settled =
        !(start (.new settings geometry encoder reserve began) world).feed.stillness.counting := rfl
  generalize start (.new settings geometry encoder reserve began) world = p at either ⊢
  induction moves generalizing p with
  | nil => exact either
  | cons move rest ih =>
    obtain ⟨operations, same, -⟩ := p.stillness_step sink move
    exact ih _ (same ▸ Stillness.settled_run either operations)

end Pool

end ScreenPreview.Stream
