import Mathlib.Data.List.Induction
import ScreenPreview.Proofs.Stream.Alone
import ScreenPreview.Stream.Record

/-!
The order in which the frames of document loads leave.

A frame that is let in goes straight out or waits for a tick, and a later one that goes straight out
does not take the one that waits along. So the frames leave in the order in which they were let in
exactly if each frame that a tick replays is the one that was let in last (`acts_departures`). Under
that condition the last picture is that of the latest frame that left; otherwise it may be older
(`acts_overtaking`).
-/
namespace ScreenPreview.Stream

inductive Act where
  | restart (stamp : Int)
  | reach (state : Screen.LoadState)
  | offer (now : Int) (pixels : Picture.Pixels)
  | tick (now : Int)

def Act.timestamp? : Act → Option Int
  | .offer _ pixels => some pixels.timestamp
  | _ => none

def Feed.act {ω : Type} (sink : Sink ω) : Feed × ω → Act → Feed × ω
  | (f, w), .restart stamp => (f.beginLoad stamp, w)
  | (f, w), .reach state => (f.setLoadState state, w)
  | (f, w), .offer now pixels => (f.offerLoad sink now pixels w).2
  | (f, w), .tick now => ((f.tick now).2.carryOutAll sink now (f.tick now).1 w).2

structure Departure where
  number : Nat
  frame : Picture.Pixels

structure Course where
  load : Load := {}
  accepted : Nat := 0
  holding : Nat := 0
  left : List Departure := []

namespace Course

def due? (c : Course) : Option Departure :=
  c.load.replay?.map fun held => ⟨c.holding, Call.heldPixels held⟩

def act (c : Course) : Act → Course
  | .restart stamp => { c with load := c.load.restart stamp }
  | .reach state => { c with load := c.load.reach state }
  | .offer _ pixels =>
    match c.load.verdict? pixels with
    | some .cached =>
      { c with load := c.load.offer pixels, accepted := c.accepted + 1, holding := c.accepted }
    | some .admitted =>
      { c with accepted := c.accepted + 1, left := ⟨c.accepted, pixels⟩ :: c.left }
    | some .stale => c
    | none => c
  | .tick _ => { c with load := c.load.tick, left := c.due?.toList ++ c.left }

def pictures (encoder : Picture.Encoder) (c : Course) : List Bytes :=
  c.left.filterMap fun departure => encoder.picture? departure.frame

def InOrder (c : Course) : Prop :=
  c.left.Pairwise fun later earlier => earlier.number < later.number

/-- A frame is due that is not the last one that was let in. -/
def Overtaken (c : Course) : Prop := ∃ departure ∈ c.due?, departure.number + 1 ≠ c.accepted

end Course

/-- No tick replays a frame while a later one has been let in. -/
def NoneOvertaken (acts : List Act) : Prop :=
  ∀ early now, early ++ [.tick now] <+: acts → ¬ (early.foldl Course.act {}).Overtaken

/-! ### The order of the numbers -/

theorem pictures_of_made {encoder : Picture.Encoder} {room : Nat} {left : List Departure}
    (made : ∀ departure ∈ left, (encoder.picture? departure.frame).any (·.length ≤ room)) :
    ((left.filterMap fun departure => encoder.picture? departure.frame).filter
        (·.length ≤ room)).map some =
      left.map fun departure => encoder.picture? departure.frame := by
  induction left with
  | nil => rfl
  | cons departure rest ih =>
    have others := ih fun other member => made other (List.mem_cons_of_mem _ member)
    obtain ⟨picture, here, fits⟩ :=
      (Option.any_eq_true _ _).mp (made departure List.mem_cons_self)
    rw [List.filterMap_cons, here, List.map_cons, here, ← others]
    simp only [List.filter_cons, fits, if_true, List.map_cons]

namespace Course

/-- What the numbers of a course say: the frame held back has not left, and it is the last one that
was let in unless a later one has left. -/
structure Numbered (c : Course) : Prop where
  left : ∀ departure ∈ c.left, departure.number < c.accepted
  waits : c.load.held.isSome →
    c.holding < c.accepted ∧ (∀ departure ∈ c.left, departure.number ≠ c.holding) ∧
      (c.holding + 1 = c.accepted ∨ ∃ departure ∈ c.left, c.holding < departure.number)

theorem due?_eq_some {c : Course} {departure : Departure} (due : c.due? = some departure) :
    c.load.held.isSome ∧ departure.number = c.holding := by
  simp only [due?, Load.replay?] at due
  split at due
  · obtain ⟨held, holds, rfl⟩ := Option.map_eq_some_iff.mp due
    exact ⟨by simp [holds], rfl⟩
  · cases due

theorem Numbered.act {c : Course} (numbered : c.Numbered) (a : Act) : (c.act a).Numbered := by
  obtain ⟨left, waits⟩ := numbered
  cases a with
  | restart stamp => exact ⟨left, waits⟩
  | reach state => exact ⟨left, waits⟩
  | offer now pixels =>
    simp only [Course.act]
    split
    · -- The frame is held back, in place of an earlier one, under the number that comes next.
      refine ⟨fun departure member => Nat.lt_succ_of_lt (left departure member), fun _ => ?_⟩
      exact ⟨Nat.lt_succ_self _,
        fun departure member => Nat.ne_of_lt (left departure member), Or.inl rfl⟩
    · refine ⟨?_, ?_⟩
      · intro departure member
        rcases List.mem_cons.mp member with rfl | before
        · exact Nat.lt_succ_self _
        · exact Nat.lt_succ_of_lt (left departure before)
      · intro holds
        obtain ⟨earlier, stays, -⟩ := waits holds
        -- A frame that goes straight out is the later one that the frame held back waits behind.
        refine ⟨Nat.lt_succ_of_lt earlier, ?_, Or.inr ⟨_, List.mem_cons_self, earlier⟩⟩
        intro departure member
        rcases List.mem_cons.mp member with rfl | before
        · exact Nat.ne_of_gt earlier
        · exact stays departure before
    · exact ⟨left, waits⟩
    · exact ⟨left, waits⟩
  | tick now =>
    refine ⟨?_, ?_⟩
    · intro departure member
      rcases List.mem_append.mp member with due | before
      · obtain ⟨holds, number⟩ := due?_eq_some (Option.mem_toList.mp due)
        rw [number]
        exact (waits holds).1
      · exact left departure before
    · -- A tick that finds the load finished takes the frame out; any other tick sends nothing.
      by_cases finished : c.load.state = .finished
      · simp [Course.act, Load.tick, finished]
      · simpa [Course.act, Load.tick, due?, Load.replay?, finished] using waits

/-- A step keeps the order exactly if it is not a tick that sends an overtaken frame. -/
theorem Numbered.inOrder_act {c : Course} (numbered : c.Numbered) (a : Act) :
    (c.act a).InOrder ↔ c.InOrder ∧ ((∃ now, a = .tick now) → ¬ c.Overtaken) := by
  obtain ⟨left, waits⟩ := numbered
  cases a with
  | restart stamp => simp [Course.act, InOrder]
  | reach state => simp [Course.act, InOrder]
  | offer now pixels =>
    simp only [Course.act, reduceCtorEq, exists_false, false_implies, and_true]
    split
    · exact Iff.rfl
    · simp only [InOrder, List.pairwise_cons]
      exact ⟨fun both => both.2, fun before => ⟨left, before⟩⟩
    · exact Iff.rfl
    · exact Iff.rfl
  | tick now =>
    cases due : c.due? with
    | none => simp [Course.act, InOrder, Overtaken, due]
    | some departure =>
      obtain ⟨holds, number⟩ := due?_eq_some due
      obtain ⟨earlier, stays, last⟩ := waits holds
      have latest : (∀ before ∈ c.left, before.number < departure.number) ↔
          departure.number + 1 = c.accepted := by
        rw [number]
        constructor
        · intro all
          rcases last with last | ⟨later, member, above⟩
          · exact last
          · exact absurd (all later member) (Nat.lt_asymm above)
        · intro last before member
          have := left before member
          have := stays before member
          omega
      simp [Course.act, InOrder, Overtaken, due, latest, and_comm]

theorem numbered_run (acts : List Act) : (acts.foldl act {}).Numbered := by
  induction acts using List.reverseRecOn with
  | nil => exact ⟨by simp, by simp⟩
  | append_singleton acts a ih =>
    rw [List.foldl_append]
    exact ih.act a

theorem inOrder_run_iff (acts : List Act) :
    (acts.foldl act {}).InOrder ↔ NoneOvertaken acts := by
  induction acts using List.reverseRecOn with
  | nil => simp [InOrder, NoneOvertaken]
  | append_singleton acts a ih =>
    rw [List.foldl_append, List.foldl_cons, List.foldl_nil, (numbered_run acts).inOrder_act, ih]
    simp only [NoneOvertaken, List.prefix_concat_iff]
    constructor
    · rintro ⟨before, here⟩ early now (whole | inside)
      · obtain ⟨rfl, same⟩ := List.append_inj' whole rfl
        exact here ⟨now, by simpa using same.symm⟩
      · exact before early now inside
    · intro all
      refine ⟨fun early now inside => all early now (Or.inr inside), ?_⟩
      rintro ⟨now, rfl⟩
      exact all acts now (Or.inl rfl)

end Course

/-! ### The course of a feed -/

variable {ω : Type} {sink : Sink ω} {within : ω → Prop} {encoder : Picture.Encoder}
  {n room : Nat} {f g : Feed} {c : Course}

structure Course.Shown (encoder : Picture.Encoder) (reserve room : Nat) (within : ω → Prop)
    (c : Course) (f : Feed) (w : ω × Writes) : Prop where
  fitted : f.Fitted encoder reserve room
  here : within w.1
  load : f.load = c.load
  valid : ∀ held ∈ c.load.held, (Call.heldPixels held).check = .ok ()
  last : f.lastPicture = (c.pictures encoder).head?
  wrote : loadPictures reserve w.2 = (c.pictures encoder).filter (·.length ≤ room)

namespace Course

theorem Shown.brings {w v : ω × Writes} {d : Course} {pictures : List Bytes}
    (shown : c.Shown encoder n room within f w)
    (brings : Brings encoder n room within pictures f w g v)
    (load : g.load = d.load) (valid : ∀ held ∈ d.load.held, (Call.heldPixels held).check = .ok ())
    (left : d.pictures encoder = pictures ++ c.pictures encoder) :
    d.Shown encoder n room within g v := by
  obtain ⟨writes, wrote, pictured⟩ := brings.wrote
  refine ⟨brings.fitted, brings.here, load, valid, ?_, ?_⟩
  · rw [brings.last, shown.last, left, List.head?_append]
  · rw [wrote, loadPictures_append, pictured, shown.wrote, left, List.filter_append]

theorem Shown.act (serves : sink.Serves within) {w : ω × Writes}
    (shown : c.Shown encoder n room within f w) (a : Act) :
    (c.act a).Shown encoder n room within (Feed.act sink.watched (f, w) a).1
      (Feed.act sink.watched (f, w) a).2 := by
  cases a with
  | restart stamp =>
    refine { shown with fitted := shown.fitted.of_eq rfl rfl, load := ?_ }
    rw [Course.act, ← shown.load]
    rfl
  | reach state =>
    refine { shown with fitted := shown.fitted.of_eq rfl rfl, load := ?_ }
    rw [Course.act, ← shown.load]
    rfl
  | offer now pixels =>
    obtain ⟨brings, load, -⟩ := Feed.offerLoad_brings serves now pixels shown.fitted shown.here
    rw [shown.load] at brings load
    have course : (c.act (.offer now pixels)).load = c.load.offer pixels ∧
        (c.act (.offer now pixels)).pictures encoder =
          (c.load.straight? encoder pixels).toList ++ c.pictures encoder := by
      simp only [Course.act, Load.straight?, Load.offer]
      cases c.load.verdict? pixels with
      | none => exact ⟨rfl, rfl⟩
      | some admission =>
        cases admission with
        | stale => exact ⟨rfl, rfl⟩
        | cached => exact ⟨rfl, rfl⟩
        | admitted =>
          refine ⟨rfl, ?_⟩
          simp only [pictures, List.filterMap_cons]
          cases encoder.picture? pixels <;> rfl
    refine shown.brings brings (load.trans course.1.symm) ?_ course.2
    intro held holds
    rw [course.1, Load.offer] at holds
    by_cases cached : c.load.verdict? pixels = some .cached
    · rw [if_pos cached] at holds
      obtain rfl := Option.some.inj holds
      exact Picture.Pixels.check_heldPixels (Load.verdict?_eq_cached_iff.mp cached).1
    · rw [if_neg cached] at holds
      exact shown.valid held holds
  | tick now =>
    have due : ∀ held ∈ c.load.replay?, (Call.heldPixels held).check = .ok () := by
      intro held due
      simp only [Load.replay?] at due
      split at due
      · exact shown.valid held due
      · cases due
    rw [← shown.load] at due
    obtain ⟨brings, load⟩ := Feed.tick_brings serves now shown.fitted due shown.here
    rw [shown.load] at brings load
    refine shown.brings brings load ?_ ?_
    · intro held holds
      simp only [Course.act, Load.tick] at holds
      split at holds
      · cases holds
      · exact shown.valid held holds
    · simp only [pictures, Course.act, due?]
      cases c.load.replay? with
      | none => rfl
      | some held =>
        simp only [Option.map_some, Option.toList_some, List.singleton_append, List.filterMap_cons,
          Option.bind_some]
        cases encoder.picture? (Call.heldPixels held) <;> rfl

theorem Shown.run (serves : sink.Serves within) {w : ω × Writes}
    (shown : c.Shown encoder n room within f w) (acts : List Act) :
    (acts.foldl Course.act c).Shown encoder n room within
      (acts.foldl (Feed.act sink.watched) (f, w)).1
      (acts.foldl (Feed.act sink.watched) (f, w)).2 := by
  induction acts generalizing c f w with
  | nil => exact shown
  | cons a rest ih => exact ih (shown.act serves a)

theorem shown_new (settings : Settings) (geometry : Screen.Geometry) (encoder : Picture.Encoder)
    (reserve : Nat) (now : Int) {world : ω} (here : within world) :
    ({} : Course).Shown encoder reserve (Feed.payloadRoom settings geometry.resolution) within
      (.new settings geometry encoder reserve now) (world, []) where
  fitted := Feed.fitted_new settings geometry encoder reserve now
  here
  load := rfl
  valid := by simp
  last := rfl
  wrote := rfl

end Course

theorem Record.serves : Record.sink.Serves fun r => r.ready = true ∧ r.failures = 0 where
  ready := fun _ within => within.1
  asked := fun _ within => within
  takes := by
    rintro wire ⟨ready, reserve, failures, writes⟩ ⟨-, none⟩
    cases none
    exact ⟨wire.length, rfl⟩
  wrote := by
    rintro wire ⟨ready, reserve, failures, writes⟩ ⟨on, none⟩
    cases none
    exact ⟨on, rfl⟩

namespace Feed

/-- On a new feed with a sink that is ready and takes what it is given, after any acts: the pictures
of document loads that were written, the last one first, and the last picture are those of the
frames that left, one for each if the encoder made all of them and they had room. The frames left in
the order in which they were let in if and only if no tick replayed an overtaken frame. A frame is
let in if it is answered as held back or as sent. -/
theorem acts_departures (serves : sink.Serves within) (settings : Settings)
    (geometry : Screen.Geometry) (encoder : Picture.Encoder) (reserve : Nat) (began : Int)
    {world : ω} (here : within world) (acts : List Act) :
    let room := payloadRoom settings geometry.resolution
    let after := acts.foldl (act sink.watched)
      (.new settings geometry encoder reserve began, world, [])
    let course := acts.foldl Course.act {}
    loadPictures reserve after.2.2 = (course.pictures encoder).filter (·.length ≤ room) ∧
      ((∀ departure ∈ course.left, (encoder.picture? departure.frame).any (·.length ≤ room)) →
        (loadPictures reserve after.2.2).map some =
          course.left.map fun departure => encoder.picture? departure.frame) ∧
      after.1.lastPicture = (course.pictures encoder).head? ∧
      (course.InOrder ↔ NoneOvertaken acts) ∧
      ∀ now pixels,
        let answer := (after.1.offerLoad sink.watched now pixels after.2).1
        (answer = .ok .cached ↔ course.load.verdict? pixels = some .cached) ∧
          ((∃ bytes quality, answer = .ok (.sent bytes quality)) ↔
            (course.load.straight? encoder pixels).any (·.length ≤ room)) := by
  intro room after course
  have shown := (Course.shown_new settings geometry encoder reserve began here).run serves acts
  refine ⟨shown.wrote, ?_, shown.last, Course.inOrder_run_iff acts, ?_⟩
  · intro made
    rw [shown.wrote]
    exact pictures_of_made made
  intro now pixels
  obtain ⟨-, -, cached, sent⟩ := offerLoad_brings serves now pixels shown.fitted shown.here
  rw [shown.load] at cached sent
  exact ⟨cached, sent⟩

def dot (timestamp : Int) (colour : UInt8) : Picture.Pixels :=
  { data := [colour, 0, 0, 255], width := 1, height := 1, timestamp }

def plain : Feed × Record × Writes :=
  (.new { maxPayload := 64 } { resolution := .uniform ⟨1, 1⟩ } (fun frame => .ok (90, frame.data)) 0
    0, {}, [])

theorem acts_departures_tick_between :
    let acts := [.offer 0 (dot 1 10), .reach .finished, .tick 0, .offer 0 (dot 2 20)]
    let after := acts.foldl (act Record.sink.watched) plain
    loadPictures 0 after.2.2 = [[20, 0, 0, 255], [10, 0, 0, 255]] ∧
      after.1.lastPicture = some [20, 0, 0, 255] ∧ NoneOvertaken acts := by
  intro acts after
  have on : ({} : Record).ready = true ∧ ({} : Record).failures = 0 := ⟨rfl, rfl⟩
  obtain ⟨wrote, -, last, order, -⟩ := acts_departures Record.serves { maxPayload := 64 }
    { resolution := .uniform ⟨1, 1⟩ } (fun frame => .ok (90, frame.data)) 0 0 on acts
  have in_order : (acts.foldl Course.act {}).InOrder := by
    unfold Course.InOrder
    decide
  exact ⟨wrote.trans (by decide), last.trans (by decide), order.mp in_order⟩

/-- The frame that is held back leaves after a later one, and its picture stays the last. -/
theorem acts_overtaking :
    let acts := [.offer 0 (dot 1 10), .reach .finished, .offer 0 (dot 2 20), .tick 0]
    let after := acts.foldl (act Record.sink.watched) plain
    (acts.filterMap Act.timestamp?).Pairwise (· ≤ ·) ∧
      loadPictures 0 after.2.2 = [[10, 0, 0, 255], [20, 0, 0, 255]] ∧
      after.1.lastPicture = some [10, 0, 0, 255] ∧ ¬ (acts.foldl Course.act {}).InOrder := by
  unfold Course.InOrder
  decide

end Feed

end ScreenPreview.Stream
