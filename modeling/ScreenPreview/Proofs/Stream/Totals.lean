import Mathlib.Algebra.GroupWithZero.Nat
import Mathlib.Data.List.Perm.Basic
import ScreenPreview.Proofs.Stream.Idle

/-!
What is counted, and what was written.

The outlet counts every write that succeeds in the section of the write. The tally counts pictures
only, and one section later; its periods are closed at any time in between. A picture that is
written and not counted yet is kept in its call (`Call.uncounted?`), so with these nothing is lost
in any section, and between calls the reports and the open period together hold every frame and
every byte that was written (`run_totals`).

Counts are words. The two counts since the start are what was written modulo 2^64. What the periods
come to is said in numbers, as long as words can tell what was written (`InWords`).
-/
namespace ScreenPreview.Stream

/-! ### Writes -/

def Event.taken? : Event → Option (Bytes × Nat)
  | .wrote wire (.ok bytes) => some (wire, bytes)
  | _ => none

def Log.taken (log : Log) : List (Bytes × Nat) := log.filterMap (·.2.taken?)

def Log.pictures (reserve : Nat) (log : Log) : List Nat :=
  (log.taken.filter fun entry => !flagged reserve .empty entry.1).map (·.2)

theorem Log.taken_of_none {number : Nat} {events : List Event} {log : Log}
    (none : ∀ event ∈ events, event.taken? = none) :
    Log.taken (events.map (number, ·) ++ log) = log.taken := by
  have fresh : Log.taken (events.map (number, ·)) = [] := by
    simpa [Log.taken, List.filterMap_eq_nil_iff] using none
  rw [Log.taken, List.filterMap_append]
  exact (congrArg (· ++ log.taken) fresh).trans (List.nil_append _)

/-! ### Sections -/

theorem Outlet.sentCount_pack {o p : Outlet} {ready : Bool} {header : Wire.Header}
    {payload : Bytes} {length : Nat} (packs : o.pack ready header payload = .ok (length, p)) :
    p.sentCount = o.sentCount := by
  unfold pack at packs
  split at packs
  · cases packs
  · split at packs
    · cases packs
    · cases packed : o.buffer.pack header payload with
      | error failure => rw [packed] at packs; cases packs
      | ok pair =>
        rw [packed] at packs
        cases packs
        rfl

namespace Call

def uncounted? : Call → Option Nat
  | record (.picture _ _) bytes => some bytes
  | record .resend bytes => some bytes
  | _ => none

inductive Counting : Call → Feed → List Event → Call → Feed → Prop
  | wrote {f g : Feed} {purpose : Purpose} {wire : Bytes} {bytes : Nat}
    (there : f.outlet.wire? = .ok wire) (tally : g.tally = f.tally)
    (sent : g.outlet.sentCount = f.outlet.sentCount + 1) :
    Counting (.write purpose) f [.wrote wire (.ok bytes)] (.record purpose bytes) g
  | counted {f : Feed} (purpose : Purpose) (now : Int) (bytes : Nat)
    (result : Except Failure Outcome) :
    Counting (.record purpose bytes) f [] (.done result) (recorded purpose now bytes f)
  | other {c d : Call} {f g : Feed} {events : List Event} (before : c.uncounted? = none)
    (after : d.uncounted? = none) (none : ∀ event ∈ events, event.taken? = none)
    (tally : g.tally = f.tally) (sent : g.outlet.sentCount = f.outlet.sentCount) :
    Counting c f events d g

variable {ω : Type} {sink : Sink ω} {c d : Call} {f g h : Feed} {events : List Event}
  {purpose : Purpose} {header : Wire.Header} {payload : Bytes}

theorem Packing.uncounted_eq (packing : Packing c f events g purpose header payload) :
    c.uncounted? = none ∧ (∀ event ∈ events, event.taken? = none) ∧ g.tally = f.tally ∧
      g.outlet.sentCount = f.outlet.sentCount := by
  cases packing <;> simp [uncounted?, Event.taken?, Feed.publish]

theorem counts_packed {ready : Bool} (packs : g.pack ready header payload = .ok h) :
    h.tally = g.tally ∧ h.outlet.sentCount = g.outlet.sentCount := by
  obtain ⟨length, outlet, packed, rfl⟩ := Feed.pack_ok packs
  exact ⟨rfl, Outlet.sentCount_pack packed⟩

theorem uncounted_encoded (job : Job) (result : Except Failure UInt8) :
    (encoded job result).uncounted? = none := by
  unfold encoded
  split <;> split <;> rfl

theorem Section.counting (taken : Section sink c f events d g) : Counting c f events d g := by
  cases taken with
  | encode job =>
    refine .other rfl (uncounted_encoded job _) (by simp [Event.taken?]) ?_ ?_
    all_goals
      unfold Feed.encode
      split <;> rfl
  | packed packing packs =>
    obtain ⟨before, none, tally, sent⟩ := packing.uncounted_eq
    obtain ⟨packed_tally, packed_sent⟩ := counts_packed packs
    exact .other before rfl none (packed_tally.trans tally) (packed_sent.trans sent)
  | unpacked packing =>
    obtain ⟨before, none, tally, sent⟩ := packing.uncounted_eq
    exact .other before rfl none tally sent
  | wrote purpose w there written =>
    refine .wrote there rfl ?_
    simp only [Outlet.delivered, written]
  | broke purpose w there failed =>
    refine .other rfl rfl (by simp [Event.taken?]) rfl ?_
    simp only [Outlet.delivered, failed]
  | record purpose now bytes => exact .counted purpose now bytes _
  | release job previous failure => exact .other rfl rfl (by simp [Event.taken?]) rfl rfl
  | done result => exact .other rfl rfl (by simp) rfl rfl
  | _ => exact .other rfl rfl (by simp) rfl rfl

theorem recorded_counts (purpose : Purpose) (now : Int) (bytes : Nat) (f : Feed) :
    let waited := (record purpose bytes).uncounted?.toList
    let after := (recorded purpose now bytes f).tally
    after.total = f.tally.total + .ofNat waited.length ∧
      after.current.frames = f.tally.current.frames + .ofNat waited.length ∧
      after.current.bytes = f.tally.current.bytes + .ofNat waited.sum := by
  cases purpose with
  | heartbeat => simp [uncounted?, recorded, Feed.recordHeartbeat, Tally.recordHeartbeat]
  | _ => simp [uncounted?, recorded, Feed.recordPicture, Tally.record]

end Call

/-- What a call is about to write says that it is a heartbeat exactly if it is written as one. -/
theorem Along.flagged_purpose {n : Nat} {f : Feed} {trail : List Event} {purpose : Purpose}
    (along : Along n f trail (.write purpose)) {wire : Bytes} (there : f.outlet.wire? = .ok wire) :
    flagged n .empty wire = true ↔ purpose = .heartbeat := by
  obtain ⟨-, -, -, -, header, payload, ⟨reserved, rfl, packed⟩, carries⟩ := along
  rw [there, Except.ok.injEq] at packed
  have flags : (header.announcing payload).flags = header.flags := rfl
  rw [packed, flagged_of_layout, flags]
  cases purpose with
  | picture job quality => simp [carries.2.1]
  | resend => simp [carries.2.1]
  | heartbeat => simp [carries.2.1]

theorem Request.tally_enter (request : Request) (now : Int) (f : Feed) :
    (request.enter now f).2.tally = f.tally := by
  obtain ⟨_, _, _, same⟩ := request.enter_feed now f
  rw [same]

theorem Request.Opens.uncounted_eq {request : Request} {c : Call} (opens : request.Opens c) :
    c.uncounted? = none := by
  cases opens <;> rfl

theorem Log.pictures_cons {n : Nat} {purpose : Purpose} {wire : Bytes}
    (flag : flagged n .empty wire = true ↔ purpose = .heartbeat) (number count : Nat) (log : Log) :
    Log.pictures n ((number, .wrote wire (.ok count)) :: log) =
      (Call.record purpose count).uncounted?.toList ++ log.pictures n := by
  have taken : Log.taken ((number, .wrote wire (.ok count)) :: log) =
      (wire, count) :: log.taken := rfl
  rw [pictures, taken]
  cases purpose <;> simp_all [pictures, Call.uncounted?]

/-! ### Runs -/

structure Closing where
  counts : Counts
  report : Option Report

def Closing.reported (closing : Closing) : List Counts := (closing.report.map (·.counts)).toList

namespace Pool

variable {ω : Type}

def closing? (p : Pool ω) : Move ω → Option Closing
  | .control now .closePeriod => some ⟨p.feed.tally.current, (p.feed.closePeriod now).1⟩
  | _ => none

def closings (sink : Sink ω) : Pool ω → List (Move ω) → List Closing
  | _, [] => []
  | p, move :: rest => (p.closing? move).toList ++ closings sink (p.step sink move) rest

def uncounted (p : Pool ω) : List Nat := p.calls.filterMap Call.uncounted?

/-- Words can tell how many pictures of these lengths there are and their length altogether. -/
def InWords (lengths : List Nat) : Prop :=
  lengths.length < UInt64.size ∧ lengths.sum < UInt64.size

/-- What was written, what was counted and what was reported agree as numbers. -/
structure Told (pictures waiting : List Nat) (reported : List Counts) (current : Counts) :
    Prop where
  frames : (reported.map (·.frames.toNat)).sum + current.frames.toNat + waiting.length =
    pictures.length
  bytes : (reported.map (·.bytes.toNat)).sum + current.bytes.toNat + waiting.sum = pictures.sum
  blank : current.frames = 0 → current.bytes = 0

structure Balanced (reserve : Nat) (p : Pool ω) (reported : List Counts) : Prop where
  sent : p.feed.outlet.sentCount = .ofNat p.log.taken.length
  total : p.feed.tally.total + .ofNat p.uncounted.length = .ofNat (p.log.pictures reserve).length
  told : InWords (p.log.pictures reserve) →
    Told (p.log.pictures reserve) p.uncounted reported p.feed.tally.current

variable {sink : Sink ω} {n : Nat} {p : Pool ω} {reported : List Counts} {current : Counts}
  {pictures waiting others new : List Nat}

/-! ### Numbers -/

theorem InWords.of_append (inWords : InWords (new ++ pictures)) : InWords pictures := by
  obtain ⟨frames, bytes⟩ := inWords
  rw [List.length_append] at frames
  rw [List.sum_append] at bytes
  exact ⟨by omega, by omega⟩

theorem toNat_add_ofNat {word : UInt64} {more : Nat} (small : word.toNat + more < UInt64.size) :
    (word + .ofNat more).toNat = word.toNat + more := by
  have fits : more < UInt64.size := by omega
  rw [UInt64.toNat_add, UInt64.toNat_ofNat_of_lt' fits]
  exact Nat.mod_eq_of_lt small

theorem Told.of_perm (told : Told pictures waiting reported current)
    (same : waiting.Perm others) : Told pictures others reported current :=
  ⟨same.length_eq ▸ told.frames, same.sum_nat ▸ told.bytes, told.blank⟩

theorem Told.wrote (told : Told pictures waiting reported current) (new : List Nat) :
    Told (new ++ pictures) (new ++ waiting) reported current := by
  obtain ⟨frames, bytes, blank⟩ := told
  refine ⟨?_, ?_, blank⟩
  · rw [List.length_append, List.length_append, ← frames]
    omega
  · rw [List.sum_append, List.sum_append, ← bytes]
    omega

/-- What is counted has been written, so no count wraps. -/
theorem Told.counted (told : Told pictures (new ++ waiting) reported current)
    (inWords : InWords pictures) {after : Counts}
    (more_frames : after.frames = current.frames + .ofNat new.length)
    (more_bytes : after.bytes = current.bytes + .ofNat new.sum) :
    Told pictures waiting reported after := by
  obtain ⟨frames, bytes, blank⟩ := told
  obtain ⟨few, small⟩ := inWords
  rw [List.length_append] at frames
  rw [List.sum_append] at bytes
  have frames_after : after.frames.toNat = current.frames.toNat + new.length := by
    rw [more_frames]
    exact toNat_add_ofNat (by omega)
  have bytes_after : after.bytes.toNat = current.bytes.toNat + new.sum := by
    rw [more_bytes]
    exact toNat_add_ofNat (by omega)
  refine ⟨by omega, by omega, ?_⟩
  intro zero
  rw [zero] at frames_after
  obtain ⟨no_frames, nothing⟩ := Nat.add_eq_zero_iff.mp frames_after.symm
  rw [more_bytes, blank (UInt64.toNat_inj.mp no_frames), List.length_eq_zero_iff.mp nothing]
  rfl

theorem Told.closed (told : Told pictures waiting reported current) :
    Told pictures waiting (reported ++ if current.frames = 0 then [] else [current]) {} := by
  obtain ⟨frames, bytes, blank⟩ := told
  by_cases none : current.frames = 0
  · rw [none] at frames
    rw [blank none] at bytes
    rw [if_pos none, List.append_nil]
    exact ⟨frames, bytes, fun _ => rfl⟩
  · rw [if_neg none]
    refine ⟨?_, ?_, fun _ => rfl⟩
    · simpa using frames
    · simpa using bytes

/-- What waits has been written, so the total is that much behind and has not wrapped. -/
theorem Told.total_eq (told : Told pictures waiting reported current) (inWords : InWords pictures)
    {total : UInt64} (words : total + .ofNat waiting.length = .ofNat pictures.length) :
    total.toNat + waiting.length = pictures.length := by
  have few : pictures.length < 18446744073709551616 := inWords.1
  have behind : waiting.length ≤ pictures.length := by
    rw [← told.frames]
    exact Nat.le_add_left _ _
  have same := congrArg UInt64.toNat words
  rw [UInt64.toNat_add, UInt64.toNat_ofNat', UInt64.toNat_ofNat'] at same
  have := total.toNat_lt
  omega

/-! ### Moves -/

theorem uncounted_set {calls : List Call} {number : Nat} {c : Call}
    (made : calls[number]? = some c) :
    ∃ others : List Nat, (calls.filterMap Call.uncounted?).Perm (c.uncounted?.toList ++ others) ∧
      ∀ d : Call, ((calls.set number d).filterMap Call.uncounted?).Perm
        (d.uncounted?.toList ++ others) := by
  obtain ⟨inside, rfl⟩ := List.getElem?_eq_some_iff.mp made
  have after (d : Call) : ((calls.set number d).filterMap Call.uncounted?).Perm
      (d.uncounted?.toList ++ (calls.eraseIdx number).filterMap Call.uncounted?) := by
    have first : (d :: calls.eraseIdx number).filterMap Call.uncounted? =
        d.uncounted?.toList ++ (calls.eraseIdx number).filterMap Call.uncounted? := by
      rw [List.filterMap_cons]
      cases d.uncounted? <;> rfl
    exact first ▸ (List.set_perm_cons_eraseIdx inside d).filterMap Call.uncounted?
  refine ⟨(calls.eraseIdx number).filterMap Call.uncounted?, ?_, after⟩
  have same := after calls[number]
  rwa [List.set_getElem_self] at same

theorem uncounted_of_allDone (idle : p.allDone = true) : p.uncounted = [] := by
  rw [uncounted, List.filterMap_eq_nil_iff]
  intro c member
  obtain ⟨result, rfl⟩ := allDone_iff.mp idle c member
  rfl

theorem balanced_start (balanced : p.Balanced n reported) (now : Int) (request : Request) :
    (p.step sink (.start now request)).Balanced n reported := by
  obtain ⟨sent, total, told⟩ := balanced
  have outlet := (request.enter_keeps now p.feed).1
  have tally := request.tally_enter now p.feed
  have fresh := (request.opens_enter now p.feed).uncounted_eq
  rw [step_start]
  generalize (request.enter now p.feed).1 = c at *
  generalize (request.enter now p.feed).2 = feed at *
  have log : Log.taken ((c.claims ++ [Event.asked request]).map (p.calls.length, ·) ++ p.log) =
      p.log.taken := by
    apply Log.taken_of_none
    unfold Call.claims
    split <;> simp [Event.taken?]
  have calls : List.filterMap Call.uncounted? (p.calls ++ [c]) = p.uncounted := by
    simp [uncounted, fresh]
  refine ⟨?_, ?_, ?_⟩
  · rw [outlet, log, sent]
  · rw [tally, Log.pictures, log, uncounted, calls, total, Log.pictures]
  · rw [tally, Log.pictures, log, uncounted, calls]
    exact told

theorem balanced_advance (sound : p.Sound sink n) (balanced : p.Balanced n reported) (now : Int)
    (number : Nat) : (p.step sink (.advance now number)).Balanced n reported := by
  rcases p.step_advance sink now number with
    same | ⟨c, d, events, feed, world, made, free, section_taken, step⟩
  · rwa [same]
  rw [step]
  obtain ⟨sent, total, told⟩ := balanced
  obtain ⟨others, before, after⟩ := uncounted_set made
  have along := sound.along number c made
  rw [uncounted, before.length_eq] at total
  cases section_taken.counting with
  | wrote there tally more =>
    rename_i purpose wire count
    have none : (Call.write purpose).uncounted?.toList = [] := rfl
    have written := Log.pictures_cons (along.flagged_purpose there) number count p.log
    rw [none, List.nil_append] at before total
    refine ⟨?_, ?_, ?_⟩
    · rw [more, sent]
      exact (UInt64.ofNat_add _ 1).symm
    · simp only [uncounted, (after _).length_eq, tally, List.map_cons, List.map_nil,
        List.singleton_append, written, List.length_append, UInt64.ofNat_add, ← total]
      ac_rfl
    · simp only [List.map_cons, List.map_nil, List.singleton_append, written, tally]
      intro inWords
      exact (((told inWords.of_append).of_perm before).wrote _).of_perm (after _).symm
  | counted purpose instant count result =>
    have none : (Call.done result).uncounted?.toList = [] := rfl
    have outlet := (Call.recorded_keeps purpose instant count p.feed).1
    obtain ⟨more, more_frames, more_bytes⟩ := Call.recorded_counts purpose instant count p.feed
    refine ⟨?_, ?_, ?_⟩
    · rw [outlet, sent]
      rfl
    · simp only [uncounted, (after _).length_eq, more, none, List.map_nil, List.nil_append]
      rw [← total, List.length_append, UInt64.ofNat_add]
      ac_rfl
    · intro inWords
      have counted := ((told inWords).of_perm before).counted inWords more_frames more_bytes
      exact counted.of_perm (after (.done result)).symm
  | other unwaited waits none tally same =>
    have log : Log.taken (events.map (number, ·) ++ p.log) = p.log.taken := Log.taken_of_none none
    have calls : ((p.calls.set number d).filterMap Call.uncounted?).Perm p.uncounted := by
      have after := after d
      rw [waits, ← unwaited] at after
      exact after.trans before.symm
    refine ⟨?_, ?_, ?_⟩
    · rw [same, log, sent]
    · rw [uncounted, calls.length_eq, tally, Log.pictures, log, ← Log.pictures, ← total,
        uncounted, before.length_eq]
    · rw [tally, Log.pictures, log, ← Log.pictures]
      exact fun inWords => (told inWords).of_perm calls.symm

theorem closePeriod_eq (f : Feed) (now : Int) :
    f.closePeriod now = (if f.tally.current.frames = 0 then none else
        some ⟨f.tally.current, elapsed f.tally.periodStart now⟩,
      { f with tally := { f.tally with current := {}, periodStart := now } }) := by
  simp only [Feed.closePeriod, Tally.close]
  split <;> rfl

theorem balanced_close (balanced : p.Balanced n reported) (now : Int) :
    let closing : Closing := ⟨p.feed.tally.current, (p.feed.closePeriod now).1⟩
    Balanced n { p with feed := (p.feed.closePeriod now).2 } (reported ++ closing.reported) ∧
      (InWords (p.log.pictures n) → closing.report = none →
        closing.counts.frames = 0 ∧ closing.counts.bytes = 0) := by
  intro closing
  obtain ⟨sent, total, told⟩ := balanced
  have reported_eq : closing.reported =
      if p.feed.tally.current.frames = 0 then [] else [p.feed.tally.current] := by
    simp only [closing, closePeriod_eq, Closing.reported]
    split <;> rfl
  have kept : (p.feed.closePeriod now).2.outlet = p.feed.outlet ∧
      (p.feed.closePeriod now).2.tally.total = p.feed.tally.total ∧
      (p.feed.closePeriod now).2.tally.current = {} := by
    rw [closePeriod_eq]
    exact ⟨rfl, rfl, rfl⟩
  obtain ⟨outlet, total_kept, started⟩ := kept
  refine ⟨⟨?_, ?_, ?_⟩, ?_⟩
  · rw [outlet, sent]
  · rw [total_kept]
    exact total
  · intro inWords
    rw [started, reported_eq]
    exact (told inWords).closed
  · intro inWords missing
    have none : p.feed.tally.current.frames = 0 := by
      by_contra some
      simp [closing, closePeriod_eq, some] at missing
    exact ⟨none, (told inWords).blank none⟩

theorem counts_apply (now : Int) (f : Feed) {change : Control} (other : change ≠ .closePeriod) :
    (change.apply now f).tally = f.tally ∧
      (change.apply now f).outlet.sentCount = f.outlet.sentCount := by
  cases change with
  | closePeriod => exact absurd rfl other
  | _ => exact ⟨rfl, rfl⟩

theorem balanced_step (sound : p.Sound sink n) (balanced : p.Balanced n reported)
    (move : Move ω) :
    (p.step sink move).Balanced n (reported ++ (p.closing? move).toList.flatMap Closing.reported) ∧
      ∀ closing ∈ p.closing? move, InWords (p.log.pictures n) → closing.report = none →
        closing.counts.frames = 0 ∧ closing.counts.bytes = 0 := by
  have open_period (none : p.closing? move = none) (kept : (p.step sink move).Balanced n reported) :
      (p.step sink move).Balanced n
          (reported ++ (p.closing? move).toList.flatMap Closing.reported) ∧
        ∀ closing ∈ p.closing? move, InWords (p.log.pictures n) → closing.report = Option.none →
          closing.counts.frames = 0 ∧ closing.counts.bytes = 0 := by
    simpa [none] using kept
  cases move with
  | start now request => exact open_period rfl (balanced_start balanced now request)
  | advance now number => exact open_period rfl (balanced_advance sound balanced now number)
  | control now change =>
    by_cases closes : change = .closePeriod
    · subst closes
      have free : p.free none = true := by simp [free]
      simp only [step, Control.needs, free, if_true, closing?, Option.toList_some,
        List.flatMap_singleton, Option.mem_some_iff, forall_eq']
      exact balanced_close balanced now
    · refine open_period ?_ ?_
      · cases change <;> first | rfl | exact absurd rfl closes
      · obtain ⟨sent, total, told⟩ := balanced
        rcases p.step_control sink now change with same | ⟨-, step⟩
        · rw [same]
          exact ⟨sent, total, told⟩
        · obtain ⟨tally, count⟩ := counts_apply now p.feed closes
          rw [step]
          refine ⟨count.trans sent, ?_, ?_⟩ <;> rw [tally] <;> assumption
  | world world =>
    obtain ⟨sent, total, told⟩ := balanced
    exact open_period rfl ⟨sent, total, told⟩

theorem pictures_of_suffix {n : Nat} {log later : Log} (suffix : log <:+ later) :
    log.pictures n <:+ later.pictures n :=
  ((suffix.filterMap _).filter _).map _

theorem balanced_run (sound : p.Sound sink n) (balanced : p.Balanced n reported)
    (moves : List (Move ω)) :
    (p.run sink moves).Balanced n (reported ++ (p.closings sink moves).flatMap Closing.reported) ∧
      (InWords ((p.run sink moves).log.pictures n) →
        ∀ closing ∈ p.closings sink moves, closing.report = none →
          closing.counts.frames = 0 ∧ closing.counts.bytes = 0) := by
  induction moves generalizing p reported with
  | nil => simpa [closings, run] using balanced
  | cons move rest ih =>
    obtain ⟨kept, honest⟩ := balanced_step sound balanced move
    obtain ⟨later, honest_later⟩ := ih (sound_step sound move) kept
    refine ⟨?_, ?_⟩
    · rw [closings, List.flatMap_append, ← List.append_assoc]
      exact later
    · intro inWords closing member
      rcases List.mem_append.mp member with here | after
      · obtain ⟨new, more⟩ := pictures_of_suffix (n := n) (p.log_run sink (move :: rest))
        exact honest closing (Option.mem_toList.mp here) (more ▸ inWords).of_append
      · exact honest_later inWords closing after

theorem balanced_new (settings : Settings) (geometry : Screen.Geometry) (encoder : Picture.Encoder)
    (reserve : Nat) (now : Int) (world : ω) :
    (start (.new settings geometry encoder reserve now) world).Balanced reserve [] :=
  ⟨rfl, rfl, fun _ => ⟨rfl, rfl, fun _ => rfl⟩⟩

/-- However the calls on a new feed are interleaved, whatever the sink answers and whenever periods
are closed: the outlet has counted the wires that the sink took, and between calls the total is the
number of pictures among them. While words can tell how many pictures and how many bytes that is,
the reports and the open period tell all frames of the total and, between calls, the bytes that the
sink gave for them, and a period without a report has none. -/
theorem run_totals (sink : Sink ω) (settings : Settings) (geometry : Screen.Geometry)
    (encoder : Picture.Encoder) (reserve : Nat) (now : Int) (world : ω) (moves : List (Move ω)) :
    let before := start (.new settings geometry encoder reserve now) world
    let p := before.run sink moves
    let reported := (before.closings sink moves).flatMap Closing.reported
    let pictures := p.log.pictures reserve
    let tally := p.feed.tally
    p.feed.outlet.sentCount = .ofNat p.log.taken.length ∧
    (p.allDone = true → tally.total = .ofNat pictures.length) ∧
    (InWords pictures →
      (reported.map (·.frames.toNat)).sum + tally.current.frames.toNat = tally.total.toNat ∧
      (p.allDone = true → tally.total.toNat = pictures.length ∧
        (reported.map (·.bytes.toNat)).sum + tally.current.bytes.toNat = pictures.sum) ∧
      ∀ closing ∈ before.closings sink moves, closing.report = none →
        closing.counts.frames = 0 ∧ closing.counts.bytes = 0) := by
  intro before p reported pictures tally
  have sound : before.Sound sink reserve := sound_new settings geometry encoder reserve now world
  obtain ⟨⟨sent, total, told⟩, honest⟩ :=
    balanced_run sound (balanced_new settings geometry encoder reserve now world) moves
  have whole (idle : p.allDone = true) : tally.total = .ofNat pictures.length := by
    simpa [p, uncounted_of_allDone idle] using total
  refine ⟨sent, whole, fun inWords => ?_⟩
  obtain ⟨frames, bytes, -⟩ := told inWords
  have counted := (told inWords).total_eq inWords total
  refine ⟨?_, fun idle => ?_, honest inWords⟩
  · exact Nat.add_right_cancel (frames.trans counted.symm)
  · rw [uncounted_of_allDone idle] at bytes counted
    exact ⟨counted, bytes⟩

def threeWrites : List (Move Record) :=
  [.start 0 (.frame { data := [1, 2, 3, 4], width := 1, height := 1 }), .advance 0 0, .advance 0 0,
    .advance 0 0, .control 1 .closePeriod, .advance 2 0, .start 3 (.intent .heartbeat),
    .advance 3 1, .advance 3 1, .advance 3 1, .advance 3 1, .control 4 .closePeriod,
    .start 5 (.intent .resend), .advance 5 2, .advance 5 2, .advance 5 2]

def unwritten : Pool Record :=
  start (.new {} { resolution := .uniform ⟨1, 1⟩ } (fun frame => .ok (90, frame.data)) 0 0) {}

theorem run_totals_of_three_writes :
    let p := unwritten.run Record.sink threeWrites
    p.allDone = true ∧ p.log.taken.length = 3 ∧ p.log.pictures 0 = [17, 17] ∧
      (unwritten.closings Record.sink threeWrites).flatMap Closing.reported = [⟨1, 17, 1⟩] ∧
      p.feed.outlet.sentCount = 3 ∧ p.feed.tally.total = 2 ∧
      17 + p.feed.tally.current.bytes.toNat = 34 := by
  intro p
  have idle : p.allDone = true := by decide +kernel
  have reported : (unwritten.closings Record.sink threeWrites).flatMap Closing.reported =
      [⟨1, 17, 1⟩] := by decide +kernel
  have three : p.log.taken.length = 3 := by decide +kernel
  have pictures : p.log.pictures 0 = [17, 17] := by decide +kernel
  obtain ⟨sent, total, told⟩ := run_totals Record.sink {} { resolution := .uniform ⟨1, 1⟩ }
    (fun frame => .ok (90, frame.data)) 0 0 {} threeWrites
  have inWords : InWords (p.log.pictures 0) := by
    rw [pictures]
    exact ⟨by decide, by decide⟩
  have bytes := ((told inWords).2.1 idle).2
  have told_bytes : (((unwritten.closings Record.sink threeWrites).flatMap Closing.reported).map
      (·.bytes.toNat)).sum = 17 := by rw [reported]; rfl
  refine ⟨idle, three, pictures, reported, ?_, ?_, ?_⟩
  · exact sent.trans (congrArg UInt64.ofNat three)
  · exact (total idle).trans (congrArg (UInt64.ofNat ·.length) pictures)
  · rw [← told_bytes]
    exact bytes.trans (congrArg List.sum pictures)

end Pool

end ScreenPreview.Stream
