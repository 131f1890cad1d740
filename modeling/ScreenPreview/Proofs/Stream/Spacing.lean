import ScreenPreview.Proofs.Stream.Standing

/-!
How far apart the live frames of a pool are.

The claims of live frames keep them apart. A load frame takes the slot at an instant it read before
it waited for the encoder, and nothing compares that instant with the claims made meanwhile. Live
frames stay the spacing apart as long as no live frame is then to come less than the spacing behind
a later claim that stands, and no longer (`run_spaced`).
-/
namespace ScreenPreview.Stream

open Event (encodings)

namespace Log

def Rendered (log : Log) (number : Nat) (instant : Int) : Prop :=
  (∃ previous, (number, .claimed instant previous) ∈ log) ∧
    ∃ given quality picture, (number, .encoded given (.ok (quality, picture))) ∈ log ∧ picture ≠ []

/-- The claims that stand and that come less than the spacing before one of the readings. -/
def fresh (spacing : Nat) (readings : List Int) (log : Log) : List RateLimit.Claim :=
  (log.standing.map (·.2)).filter fun c => ∃ read ∈ readings, read < c.reserved + spacing

variable {spacing : Nat} {readings : List Int} {log : Log}

theorem mem_fresh {c : RateLimit.Claim} :
    c ∈ log.fresh spacing readings ↔
      (∃ entry ∈ log.standing, entry.2 = c) ∧ ∃ read ∈ readings, read < c.reserved + spacing := by
  simp [fresh]

theorem fresh_sublist {later : List Int} (inside : later ⊆ readings) :
    (log.fresh spacing later).Sublist (log.fresh spacing readings) := by
  have same : log.fresh spacing later = (log.fresh spacing readings).filter
      fun c => ∃ read ∈ later, read < c.reserved + spacing := by
    rw [fresh, fresh, List.filter_filter]
    refine List.filter_congr ?_
    intro c _
    by_cases near : ∃ read ∈ later, read < c.reserved + (spacing : Int)
    · obtain ⟨read, member, early⟩ := near
      rw [decide_eq_true ⟨read, member, early⟩, decide_eq_true ⟨read, inside member, early⟩]
      rfl
    · rw [decide_eq_false near]
      rfl
  rw [same]
  exact List.filter_sublist

theorem fresh_of_claimed {now : Int} {number : Nat} {previous : Option Int} (older : Log)
    (same : log.standing = (number, ⟨now, previous⟩) :: older.standing) :
    (log.fresh spacing readings).Sublist (⟨now, previous⟩ :: older.fresh spacing readings) := by
  rw [fresh, same, List.map_cons, List.filter_cons]
  split
  · exact List.Sublist.refl _
  · exact List.sublist_cons_self ..

end Log

variable {ω : Type} {sink : Sink ω} {spacing : Nat}

theorem Control.apply_rateLimit (now : Int) (f : Feed) {change : Control}
    (constant : ∀ spacing, change ≠ .dropInterval spacing) :
    (change.apply now f).rateLimit = f.rateLimit := by
  cases change with
  | dropInterval spacing => exact absurd rfl (constant spacing)
  | _ => rfl

theorem filter_of_distinct {entries : List (Nat × RateLimit.Claim)} {number : Nat}
    {claim : RateLimit.Claim} (distinct : entries.Pairwise fun newer older => newer.1 ≠ older.1)
    (member : (number, claim) ∈ entries) :
    ∃ newer older, entries = newer ++ (number, claim) :: older ∧
      entries.filter (·.1 ≠ number) = newer ++ older := by
  obtain ⟨newer, older, rfl⟩ := List.append_of_mem member
  refine ⟨newer, older, rfl, ?_⟩
  obtain ⟨-, behind, before⟩ := List.pairwise_append.mp distinct
  have newer_kept : newer.filter (·.1 ≠ number) = newer := by
    rw [List.filter_eq_self]
    intro entry member
    simpa using before entry member _ List.mem_cons_self
  have older_kept : older.filter (·.1 ≠ number) = older := by
    rw [List.filter_eq_self]
    intro entry member
    simpa using Ne.symm ((List.pairwise_cons.mp behind).1 entry member)
  rw [List.filter_append, newer_kept, List.filter_cons_of_neg (by simp), older_kept]

namespace Pool

def Ordered (began : Int) (moves : List (Move ω)) : Prop :=
  (began :: moves.filterMap Move.instant?).Pairwise (· ≤ ·)

instance (began : Int) (moves : List (Move ω)) : Decidable (Ordered began moves) :=
  inferInstanceAs (Decidable ((began :: moves.filterMap Move.instant?).Pairwise (· ≤ ·)))

def readings (moves : List (Move ω)) : List Int :=
  moves.filterMap fun
    | .start read (.frame _) => some read
    | _ => none

theorem readings_append (early later : List (Move ω)) :
    readings (early ++ later) = readings early ++ readings later :=
  List.filterMap_append

theorem readings_tail_subset (move : Move ω) (rest : List (Move ω)) :
    readings rest ⊆ readings (move :: rest) := by
  rw [← List.singleton_append, readings_append]
  exact List.subset_append_right ..

/-- The limit lets in no live frame now less than the spacing after a claim that stands. -/
def Guards (spacing : Nat) (now : Int) (p : Pool ω) : Prop :=
  p.feed.rateLimit.reserve now ≠ none →
    ∀ entry ∈ p.log.standing, entry.2.reserved + (spacing : Int) ≤ now

/-- A load frame that takes the slot comes no earlier than the claims that stand, or every reading
is the spacing behind those that are later. -/
def Timely (spacing : Nat) (readings : List Int) (p : Pool ω) : Move ω → Prop
  | .advance _ number => ∀ job quality, p.calls[number]? = some (.accept job quality) →
    ∀ entry ∈ p.log.standing, entry.2.reserved ≤ job.admitted ∨
      ∀ read ∈ readings, entry.2.reserved + (spacing : Int) ≤ read
  | _ => True

def Orderly (sink : Sink ω) (spacing : Nat) (p : Pool ω) : List (Move ω) → Prop
  | [] => True
  | move :: rest =>
    p.Timely spacing (readings rest) move ∧ Orderly sink spacing (p.step sink move) rest

structure Spaced (spacing : Nat) (readings : List Int) (p : Pool ω) : Prop extends p.Booked where
  spacing_eq : p.feed.rateLimit.spacing = spacing
  covers : RateLimit.Covers p.feed.rateLimit (p.log.fresh spacing readings)
  apart : p.log.standing.Pairwise fun newer older =>
    older.2.reserved + (spacing : Int) ≤ newer.2.reserved

variable {p : Pool ω}

/-! ### The spacing -/

def Constant (moves : List (Move ω)) : Prop :=
  ∀ now spacing, .control now (.dropInterval spacing) ∉ moves

theorem Constant.head {move : Move ω} {rest : List (Move ω)} (constant : Constant (move :: rest)) :
    ∀ now spacing, move ≠ .control now (.dropInterval spacing) := by
  rintro now spacing rfl
  exact constant now spacing List.mem_cons_self

theorem Constant.tail {move : Move ω} {rest : List (Move ω)} (constant : Constant (move :: rest)) :
    Constant rest :=
  fun now spacing member => constant now spacing (List.mem_cons_of_mem _ member)

theorem spacing_step (constant_spacing : p.feed.rateLimit.spacing = spacing) {move : Move ω}
    (constant : ∀ now spacing, move ≠ .control now (.dropInterval spacing)) :
    (p.step sink move).feed.rateLimit.spacing = spacing := by
  cases move with
  | start now request =>
    rw [step_start]
    rcases request.rateLimit_enter now p.feed with ⟨-, same⟩ | ⟨_, _, _, -, -, answer, same⟩
    · rw [same, constant_spacing]
    · rw [same, RateLimit.spacing_reserve answer, constant_spacing]
  | advance now number =>
    rcases p.step_advance sink now number with same | ⟨_, _, _, _, _, -, -, taken, step⟩
    · rw [same, constant_spacing]
    · rw [step]
      rcases taken.slot_cases with ⟨_, _, _, -, -, -, released⟩ | ⟨_, _, -, -, -, accepted⟩ |
        ⟨kept, -⟩
      · rw [released, RateLimit.spacing_release, constant_spacing]
      · rw [accepted, RateLimit.spacing_accept, constant_spacing]
      · rw [kept, constant_spacing]
  | control now change =>
    rcases p.step_control sink now change with same | ⟨-, step⟩
    · rw [same, constant_spacing]
    · rw [step, change.apply_rateLimit, constant_spacing]
      rintro spacing rfl
      exact constant now spacing rfl
  | world world => exact constant_spacing

/-! ### Steps -/

theorem Spaced.fewer {readings later : List Int} (spaced : p.Spaced spacing readings)
    (inside : later ⊆ readings) : p.Spaced spacing later :=
  ⟨spaced.toBooked, spaced.spacing_eq, spaced.covers.sublist (Log.fresh_sublist inside),
    spaced.apart⟩

theorem Spaced.guards {readings : List Int} (spaced : p.Spaced spacing readings)
    (limited : 0 < spacing) {read late : Int} (member : read ∈ readings) (le : read ≤ late) :
    p.Guards spacing late := by
  intro admitted entry stands
  have limit : 0 < p.feed.rateLimit.spacing := by rwa [spaced.spacing_eq]
  by_cases fresh : read < entry.2.reserved + (spacing : Int)
  · have covered : entry.2 ∈ p.log.fresh spacing readings :=
      Log.mem_fresh.mpr ⟨⟨entry, stands, rfl⟩, read, member, fresh⟩
    obtain ⟨v, held, le⟩ := spaced.covers.holder entry.2 covered
    rw [Ne, RateLimit.reserve_eq_none_iff _ _ limit] at admitted
    have past : ¬ late < v + p.feed.rateLimit.spacing := fun near => admitted ⟨v, held, near⟩
    rw [spaced.spacing_eq] at past
    omega
  · omega

theorem spaced_start {now : Int} {request : Request} {rest : List (Move ω)}
    (spaced : p.Spaced spacing (readings (.start now request :: rest))) (limited : 0 < spacing) :
    (p.step sink (.start now request)).Spaced spacing (readings rest) := by
  have booked : (p.step sink (.start now request)).Booked :=
    booked_start spaced.toBooked now request
  have constant_spacing : (p.step sink (.start now request)).feed.rateLimit.spacing = spacing :=
    spacing_step spaced.spacing_eq (by simp)
  have fewer := spaced.fewer (readings_tail_subset (.start now request) rest)
  refine ⟨booked, constant_spacing, ?_, ?_⟩
  · rw [step_start]
    rcases request.rateLimit_enter now p.feed with ⟨free, same⟩ |
      ⟨_, _, _, rfl, entered, answer, same⟩
    · rw [free, same]
      exact fewer.covers
    · have covers := fewer.covers.reserve (by rwa [spaced.spacing_eq]) answer
      rw [entered, same]
      exact covers.sublist (Log.fresh_of_claimed p.log rfl)
  · rw [step_start]
    rcases request.rateLimit_enter now p.feed with ⟨free, -⟩ | ⟨_, _, _, rfl, entered, answer, -⟩
    · rw [free]
      exact spaced.apart
    · rw [entered]
      have guarded := spaced.guards limited List.mem_cons_self (Int.le_refl now) (by simp [answer])
      exact List.pairwise_cons.mpr ⟨guarded, spaced.apart⟩

theorem covers_release {readings : List Int} (spaced : p.Spaced spacing readings)
    (limited : 0 < spacing) {number : Nat} {claim : RateLimit.Claim}
    (stands : (number, claim) ∈ p.log.standing) :
    RateLimit.Covers (p.feed.rateLimit.release claim.reserved claim.previous)
      (Log.fresh spacing readings ((number, .gaveBack) :: p.log)) := by
  have covers := spaced.covers
  obtain ⟨newer, older, split, rest⟩ := filter_of_distinct spaced.distinct stands
  rw [Log.fresh, split, List.map_append, List.map_cons, List.filter_append] at covers
  rw [Log.fresh, Log.standing, rest, List.map_append, List.filter_append]
  by_cases fresh : ∃ read ∈ readings, read < claim.reserved + (spacing : Int)
  · rw [List.filter_cons_of_pos (by simpa using fresh)] at covers
    exact covers.release (by rwa [spaced.spacing_eq])
  · rw [List.filter_cons_of_neg (by simpa using fresh)] at covers
    refine covers.release_earlier ?_ claim.previous
    intro other member
    rw [← List.filter_append, List.mem_filter, decide_eq_true_iff] at member
    obtain ⟨-, read, later, near⟩ := member
    have far : ¬ read < claim.reserved + (spacing : Int) := fun near => fresh ⟨read, later, near⟩
    omega

theorem covers_advance {readings : List Int} (spaced : p.Spaced spacing readings)
    (limited : 0 < spacing) {now : Int} {number : Nat}
    (timely : p.Timely spacing readings (.advance now number)) :
    RateLimit.Covers (p.step sink (.advance now number)).feed.rateLimit
      ((p.step sink (.advance now number)).log.fresh spacing readings) := by
  rcases p.step_advance sink now number with
    same | ⟨c, d, events, feed, world, made, free, taken, step⟩
  · rw [same]
    exact spaced.covers
  rw [step]
  rcases taken.slot_cases with ⟨job, previous, failure, rfl, rfl, rfl, released⟩ |
    ⟨job, quality, rfl, rfl, rfl, accepted⟩ | ⟨kept, others⟩
  · rw [released]
    exact covers_release spaced limited (spaced.slots number _ _ made rfl)
  · rw [accepted]
    refine spaced.covers.accept ?_
    intro claim member
    obtain ⟨⟨entry, stands, rfl⟩, read, later, near⟩ := Log.mem_fresh.mp member
    rcases timely job quality made entry stands with before | far
    · exact before
    · exact absurd (far read later) (Int.not_le.mpr near)
  · rw [kept, Log.fresh, Log.standing_of_others others]
    exact spaced.covers

theorem spaced_advance {reserve : Nat} {readings : List Int} (spaced : p.Spaced spacing readings)
    (sound : p.Sound sink reserve) (limited : 0 < spacing) {now : Int} {number : Nat}
    (timely : p.Timely spacing readings (.advance now number)) :
    (p.step sink (.advance now number)).Spaced spacing readings := by
  refine ⟨booked_advance spaced.toBooked sound now number, spacing_step spaced.spacing_eq (by simp),
    covers_advance spaced limited timely, ?_⟩
  rcases p.step_advance sink now number with same | ⟨_, _, _, _, _, -, -, taken, step⟩
  · rw [same]
    exact spaced.apart
  · rw [step]
    exact spaced.apart.sublist (taken.standing_sublist number p.log)

theorem spaced_step {reserve : Nat} {move : Move ω} {rest : List (Move ω)}
    (spaced : p.Spaced spacing (readings (move :: rest))) (sound : p.Sound sink reserve)
    (limited : 0 < spacing) (constant : ∀ now spacing, move ≠ .control now (.dropInterval spacing))
    (timely : p.Timely spacing (readings rest) move) :
    (p.step sink move).Spaced spacing (readings rest) := by
  have fewer := spaced.fewer (readings_tail_subset move rest)
  cases move with
  | start now request => exact spaced_start spaced limited
  | advance now number => exact spaced_advance fewer sound limited timely
  | control now change =>
    have booked : (p.step sink (.control now change)).Booked :=
      booked_step spaced.toBooked sound (.control now change)
    rcases p.step_control sink now change with same | ⟨-, step⟩
    · rwa [same]
    · have kept : (change.apply now p.feed).rateLimit = p.feed.rateLimit := by
        apply change.apply_rateLimit
        rintro spacing rfl
        exact constant now spacing rfl
      rw [step] at booked ⊢
      exact ⟨booked, by rw [kept]; exact fewer.spacing_eq, by rw [kept]; exact fewer.covers,
        fewer.apart⟩
  | world world =>
    have booked := booked_step spaced.toBooked sound (.world world)
    exact ⟨booked, fewer.spacing_eq, fewer.covers, fewer.apart⟩

/-! ### Runs -/

theorem spaced_run {reserve : Nat} {early later : List (Move ω)}
    (spaced : p.Spaced spacing (readings (early ++ later))) (sound : p.Sound sink reserve)
    (limited : 0 < spacing) (constant : Constant (early ++ later))
    (orderly : p.Orderly sink spacing (early ++ later)) :
    (p.run sink early).Spaced spacing (readings later) := by
  induction early generalizing p with
  | nil => exact spaced
  | cons move rest ih =>
    have next := spaced_step spaced sound limited constant.head orderly.1
    exact ih next (sound_step sound move) constant.tail orderly.2

theorem spaced_new (settings : Settings) (geometry : Screen.Geometry) (encoder : Picture.Encoder)
    (reserve : Nat) (now : Int) (world : ω) (readings : List Int) :
    (start (.new settings geometry encoder reserve now) world).Spaced
      (millis settings.dropInterval) readings :=
  ⟨booked_new _ _, rfl, RateLimit.covers_nil _, List.Pairwise.nil⟩

/-! ### What keeps live frames apart -/

theorem Spaced.stands {readings : List Int} (spaced : p.Spaced spacing readings) {number : Nat}
    {instant : Int} (rendered : p.log.Rendered number instant) :
    ∃ previous, (number, ⟨instant, previous⟩) ∈ p.log.standing := by
  obtain ⟨⟨previous, claimed⟩, given, quality, picture, encoded, full⟩ := rendered
  rcases spaced.fates number instant previous claimed with stands | ⟨-, failed⟩
  · exact ⟨previous, stands⟩
  · have made : (given, .ok (quality, picture)) ∈ encodings (p.log.own number) :=
      List.mem_filterMap.mpr ⟨_, List.mem_filterMap.mpr ⟨_, encoded, if_pos rfl⟩, rfl⟩
    exact absurd (failed given quality picture made) full

theorem Spaced.rendered_apart {readings : List Int} (spaced : p.Spaced spacing readings)
    {number other : Nat} {instant late : Int} (differ : number ≠ other)
    (first : p.log.Rendered number instant)
    (second : p.log.Rendered other late) :
    instant + (spacing : Int) ≤ late ∨ late + (spacing : Int) ≤ instant := by
  obtain ⟨_, first⟩ := spaced.stands first
  obtain ⟨_, second⟩ := spaced.stands second
  have either := List.Pairwise.forall_of_forall_of_flip
    (R := fun a b => a.1 ≠ b.1 →
      b.2.reserved + (spacing : Int) ≤ a.2.reserved ∨ a.2.reserved + (spacing : Int) ≤ b.2.reserved)
    (fun entry _ same => absurd rfl same) (spaced.apart.imp fun le _ => Or.inl le)
    (spaced.apart.imp fun le _ => Or.inr le)
  exact (either first second differ).symm

theorem step_accept (sink : Sink ω) (p : Pool ω) (now : Int) {number : Nat} {job : Job}
    {quality : UInt8} (made : p.calls[number]? = some (.accept job quality)) :
    (p.step sink (.advance now number)).feed.rateLimit = p.feed.rateLimit.accept job.admitted ∧
      (p.step sink (.advance now number)).log = p.log := by
  have free : p.free (Call.accept job quality).needs = true := by simp [free, Call.needs]
  simp only [step, made, free, if_true]
  exact ⟨rfl, rfl⟩

/-- A load frame that takes the slot too early lets the next live frame in less than the spacing
after a claim that stands. -/
theorem timely_of_guards {readings : List Int} {move : Move ω} (limited : 0 < spacing)
    (constant_spacing : (p.step sink move).feed.rateLimit.spacing = spacing)
    (guards : ∀ read ∈ readings, ∀ late, read ≤ late → (p.step sink move).Guards spacing late) :
    p.Timely spacing readings move := by
  cases move with
  | advance now number =>
    intro job quality made entry stands
    obtain ⟨taken, log⟩ := p.step_accept sink now made
    rw [Classical.or_iff_not_imp_left]
    intro earlier read member
    -- The first instant from the reading on at which the limit would let a live frame in.
    have guarded := guards read member (max read (job.admitted + spacing)) (Int.le_max_left ..) ?_
      entry (by rwa [log])
    · omega
    · rw [Ne, RateLimit.reserve_eq_none_iff _ _ (by rwa [constant_spacing]), constant_spacing,
        taken]
      rintro ⟨v, held, near⟩
      have same : job.admitted = v := Option.some.inj held
      omega
  | _ => trivial

theorem orderly_of_guards {moves : List (Move ω)} (limited : 0 < spacing)
    (constant_spacing : p.feed.rateLimit.spacing = spacing) (constant : Constant moves)
    (guards : ∀ early later, early ++ later = moves → ∀ read ∈ readings later, ∀ late,
      read ≤ late → (p.run sink early).Guards spacing late) : p.Orderly sink spacing moves := by
  induction moves generalizing p with
  | nil => trivial
  | cons move rest ih =>
    have next : (p.step sink move).feed.rateLimit.spacing = spacing :=
      spacing_step constant_spacing constant.head
    refine ⟨timely_of_guards limited next (guards [move] rest rfl), ih next constant.tail ?_⟩
    rintro early later rfl
    exact guards (move :: early) later rfl

/-- With a constant spacing, whatever the calls read of the clock: as long as every load frame that
takes the slot is timely, live frames that are let in and encoded are the spacing apart; and exactly
that long the limit guards every claim that stands, at every reading that is to come and later. -/
theorem run_spaced (sink : Sink ω) (settings : Settings) (geometry : Screen.Geometry)
    (encoder : Picture.Encoder) (reserve : Nat) (now : Int) (world : ω) (moves : List (Move ω))
    (limited : 0 < settings.dropInterval) (constant : Constant moves) :
    let p := start (.new settings geometry encoder reserve now) world
    let spacing := millis settings.dropInterval
    (p.Orderly sink spacing moves ↔
      ∀ early later, early ++ later = moves → ∀ read ∈ readings later, ∀ late, read ≤ late →
        (p.run sink early).Guards spacing late) ∧
    (p.Orderly sink spacing moves →
      ∀ number other instant late, number ≠ other → (p.run sink moves).log.Rendered number instant →
        (p.run sink moves).log.Rendered other late →
        instant + (spacing : Int) ≤ late ∨ late + (spacing : Int) ≤ instant) := by
  intro p spacing
  have positive : 0 < spacing := Nat.mul_pos limited (by decide)
  have sound : p.Sound sink reserve := sound_new settings geometry encoder reserve now world
  have new (readings : List Int) : p.Spaced spacing readings :=
    spaced_new settings geometry encoder reserve now world readings
  refine ⟨⟨?_, orderly_of_guards positive (new []).spacing_eq constant⟩, ?_⟩
  · rintro orderly early later rfl read member late le
    exact (spaced_run (new _) sound positive constant orderly).guards positive member le
  · intro orderly number other instant late differ first second
    rw [← List.append_nil moves] at constant orderly
    exact (spaced_run (new _) sound positive constant orderly).rendered_apart differ first second

def pixel (value : UInt8) : Picture.Pixels :=
  { data := List.replicate 4 value, width := 1, height := 1 }

def hundredApart : Pool Record :=
  start (.new { dropInterval := 100 } { resolution := .uniform ⟨1, 1⟩ }
    (fun frame => .ok (90, frame.data)) 0 0) {}

def lateLoad : List (Move Record) :=
  [.control 0 (.loadState .finished), .start 0 (.loadFrame (pixel 1)),
    .start (millis 100) (.frame (pixel 2)), .advance (millis 100) 1, .advance (millis 100) 1,
    .advance (millis 100) 1, .advance (millis 100) 1, .start (millis 150) (.frame (pixel 3)),
    .advance (millis 200) 0, .advance (millis 200) 0, .start (millis 200) (.frame (pixel 4)),
    .advance (millis 200) 0, .advance (millis 200) 0, .advance (millis 200) 0,
    .advance (millis 200) 3]

theorem run_spaced_behind_late_load :
    0 < 100 ∧ Constant lateLoad ∧ hundredApart.Orderly Record.sink (millis 100) lateLoad ∧
    (hundredApart.run Record.sink lateLoad).log.Rendered 1 (millis 100) ∧
    (hundredApart.run Record.sink lateLoad).log.Rendered 3 (millis 200) ∧
    (∀ early later, early ++ later = lateLoad → ∀ read ∈ readings later, ∀ late, read ≤ late →
      (hundredApart.run Record.sink early).Guards (millis 100) late) ∧
    ∀ number other instant late, number ≠ other →
      (hundredApart.run Record.sink lateLoad).log.Rendered number instant →
      (hundredApart.run Record.sink lateLoad).log.Rendered other late →
      instant + (millis 100 : Int) ≤ late ∨ late + (millis 100 : Int) ≤ instant := by
  have constant : Constant lateLoad := by
    intro now spacing member
    simp [lateLoad] at member
  have orderly : hundredApart.Orderly Record.sink (millis 100) lateLoad := by
    refine ⟨trivial, trivial, trivial, nofun, nofun, nofun, nofun, trivial, nofun, ?_, trivial,
      nofun, nofun, nofun, nofun, trivial⟩
    rintro job quality - entry member
    rcases List.mem_singleton.mp member with rfl
    exact Or.inr (by decide)
  obtain ⟨guarded, apart⟩ := run_spaced Record.sink { dropInterval := 100 }
    { resolution := .uniform ⟨1, 1⟩ } (fun frame => .ok (90, frame.data)) 0 0 {} lateLoad
    (by decide)
    constant
  refine ⟨by decide, constant, orderly,
    ⟨⟨none, ?_⟩, (pixel 2).trimmed, 90, [2, 2, 2, 2], ?_, ?_⟩,
    ⟨⟨some 0, ?_⟩, (pixel 4).trimmed, 90, [4, 4, 4, 4], ?_, ?_⟩, guarded.mp orderly, apart orderly⟩
  · exact List.mem_of_getElem? (i := 10) rfl
  · exact List.mem_of_getElem? (i := 9) rfl
  · simp
  · exact List.mem_of_getElem? (i := 3) rfl
  · exact List.mem_of_getElem? (i := 0) rfl
  · simp

/-- A load frame waits for its encoding while a live frame claims the slot, and takes the slot back
to the instant it read before; so the next live frame comes too early. -/
def crossing : List (Move Record) :=
  [.control 0 (.loadState .finished), .start 0 (.loadFrame (pixel 1)),
    .start (millis 100) (.frame (pixel 2))] ++ List.replicate 5 (.advance (millis 100) 0) ++
  List.replicate 4 (.advance (millis 100) 1) ++
  [.start (millis 150) (.frame (pixel 3)), .advance (millis 150) 2]

/-- With a clock that never goes back and a constant spacing, two live frames are let in and encoded
half the spacing apart. -/
theorem crossing_not_spaced :
    Ordered 0 crossing ∧ Constant crossing ∧
    (hundredApart.run Record.sink crossing).log.Rendered 1 (millis 100) ∧
    (hundredApart.run Record.sink crossing).log.Rendered 2 (millis 150) ∧
    ¬ ∀ number other instant late, number ≠ other →
      (hundredApart.run Record.sink crossing).log.Rendered number instant →
      (hundredApart.run Record.sink crossing).log.Rendered other late →
      instant + (millis 100 : Int) ≤ late ∨ late + (millis 100 : Int) ≤ instant := by
  have first : (hundredApart.run Record.sink crossing).log.Rendered 1 (millis 100) := by
    refine ⟨⟨none, List.mem_of_getElem? (i := 9) rfl⟩, (pixel 2).trimmed, 90, [2, 2, 2, 2], ?_, ?_⟩
    · exact List.mem_of_getElem? (i := 5) rfl
    · simp
  have second : (hundredApart.run Record.sink crossing).log.Rendered 2 (millis 150) := by
    refine ⟨⟨some 0, List.mem_of_getElem? (i := 1) rfl⟩, (pixel 3).trimmed, 90, [3, 3, 3, 3],
      ?_, ?_⟩
    · exact List.mem_of_getElem? (i := 0) rfl
    · simp
  refine ⟨by decide, ?_, first, second, ?_⟩
  · intro now spacing member
    simp [crossing] at member
  · intro apart
    have either := apart 1 2 (millis 100) (millis 150) (by decide) first second
    exact absurd either (by decide)

end Pool

end ScreenPreview.Stream
