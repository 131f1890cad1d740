import ScreenPreview.Proofs.Stream.Idle
import ScreenPreview.Proofs.Stream.Leftover

/-!
Live frames that are refused.

A frame that does not pass its check, shows still content, comes too soon or cannot be encoded never
gets to the outlet. When its call is done, and no other call came between, nothing has been written
and the feed is as it was, but for the detector of still content and for what the encoder left
behind, which no call will ever see (`run_refused`).
-/
namespace ScreenPreview.Stream

def Stillness.seen (s : Stillness) (now : Int) (change : Int32) : Stillness :=
  if s.cardHolds change then s else ((s.refresh now).judge change).2

namespace Feed

/-- The frame is refused, and its call answers this. -/
inductive Refuses (f : Feed) (now : Int) (pixels : Picture.Pixels) :
    Except Failure Outcome → Prop
  | invalid {failure : Failure} (check : pixels.check = .error failure) :
    Refuses f now pixels (.error failure)
  | suppressed (valid : pixels.check = .ok ())
    (still : (f.admitLive now pixels.change).1 = .suppressed) :
    Refuses f now pixels (.ok .suppressed)
  | dropped (valid : pixels.check = .ok ())
    (soon : (f.admitLive now pixels.change).1 = .dropped) : Refuses f now pixels (.ok .dropped)
  | encoding {previous : Option Int} {failure : Failure} (valid : pixels.check = .ok ())
    (admitted : (f.admitLive now pixels.change).1 = .admitted previous)
    (failed : (f.encode pixels).1 = .error failure) : Refuses f now pixels (.error failure)

def letIn (f : Feed) (now : Int) (change : Int32) : Feed :=
  { f with stillness := f.stillness.seen now change, rateLimit := f.rateLimit.accept now }

theorem admitLive_cases (f : Feed) (now : Int) (change : Int32) :
    f.admitLive now change =
        (.suppressed, { f with stillness := f.stillness.seen now change }) ∨
      f.admitLive now change =
        (.dropped, { f with stillness := f.stillness.seen now change }) ∨
      f.admitLive now change = (.admitted f.rateLimit.lastAccepted, f.letIn now change) := by
  unfold admitLive letIn Stillness.seen
  split
  · exact Or.inl rfl
  · simp only
    split
    · exact Or.inl rfl
    · cases soon : f.rateLimit.tooSoon now with
      | true => exact Or.inr (Or.inl (by simp [RateLimit.reserve, soon]))
      | false => exact Or.inr (Or.inr (by simp [RateLimit.reserve, soon]))

theorem release_letIn (f : Feed) (now : Int) (change : Int32) (output : Bytes) :
    Feed.release { f.letIn now change with output } now f.rateLimit.lastAccepted =
      { f with stillness := f.stillness.seen now change, output } := by
  simp [release, letIn, RateLimit.release, RateLimit.accept]

theorem encode_of_encoder {f g : Feed} (same : g.encoder = f.encoder) (pixels : Picture.Pixels) :
    g.encode pixels =
      ((f.encode pixels).1, { g with output := (f.encode pixels).2.output }) := by
  unfold encode
  rw [same]
  cases f.encoder pixels.trimmed <;> rfl

theorem Refuses.frame_cases {f : Feed} {now : Int} {pixels : Picture.Pixels}
    {result : Except Failure Outcome} (refuses : f.Refuses now pixels result) :
    (∃ stillness, Call.frame f now pixels = (.done result, { f with stillness }) ∧
        (pixels.check ≠ .ok () → stillness = f.stillness)) ∨
      ∃ failure, result = .error failure ∧ pixels.check = .ok () ∧
        (f.encode pixels).1 = .error failure ∧
        Call.frame f now pixels =
          (.encode ⟨pixels, now, .live f.rateLimit.lastAccepted⟩, f.letIn now pixels.change) := by
  have admission := f.admitLive_cases now pixels.change
  cases refuses with
  | invalid check => exact Or.inl ⟨f.stillness, by simp [Call.frame, check], fun _ => rfl⟩
  | suppressed valid still =>
    rcases admission with same | same | same
    · exact Or.inl ⟨f.stillness.seen now pixels.change, by simp [Call.frame, valid, same],
        fun invalid => absurd valid invalid⟩
    · simp [same] at still
    · simp [same] at still
  | dropped valid soon =>
    rcases admission with same | same | same
    · simp [same] at soon
    · exact Or.inl ⟨f.stillness.seen now pixels.change, by simp [Call.frame, valid, same],
        fun invalid => absurd valid invalid⟩
    · simp [same] at soon
  | encoding valid admitted failed =>
    rcases admission with same | same | same
    · simp [same] at admitted
    · simp [same] at admitted
    · exact Or.inr ⟨_, rfl, valid, failed, by simp [Call.frame, valid, same]⟩

theorem frame_of_not_refused {f : Feed} {now : Int} {pixels : Picture.Pixels}
    (passes : ∀ result, ¬ f.Refuses now pixels result) :
    ∃ quality, (f.encode pixels).1 = .ok quality ∧
      Call.frame f now pixels =
        (.encode ⟨pixels, now, .live f.rateLimit.lastAccepted⟩, f.letIn now pixels.change) := by
  cases check : pixels.check with
  | error failure => exact absurd (.invalid check) (passes _)
  | ok _ =>
    rcases f.admitLive_cases now pixels.change with same | same | same
    · exact absurd (.suppressed check (by rw [same])) (passes _)
    · exact absurd (.dropped check (by rw [same])) (passes _)
    · cases made : (f.encode pixels).1 with
      | error failure => exact absurd (.encoding check (by rw [same]) made) (passes _)
      | ok quality => exact ⟨quality, rfl, by simp [Call.frame, check, same]⟩

end Feed

namespace Pool

variable {ω : Type}

theorem run_of_done (sink : Sink ω) {p : Pool ω} {others : List Call}
    {result : Except Failure Outcome} (calls : p.calls = others ++ [.done result])
    (times : List Int) : p.run sink (times.map (.advance · others.length)) = p := by
  have still (now : Int) : p.step sink (.advance now others.length) = p := by
    have made : p.calls[others.length]? = some (.done result) := by simp [calls]
    have same : p.calls.set others.length (.done result) = p.calls := by simp [calls]
    simp [step, made, free, Call.needs, Call.step, Call.shows, same]
  induction times with
  | nil => rfl
  | cons now rest ih =>
    rw [List.map_cons, run, List.foldl_cons, still]
    exact ih

theorem unaware_of_allDone {p : Pool ω} (idle : p.allDone = true) : p.Unaware := by
  intro c member
  obtain ⟨result, rfl⟩ := allDone_iff.mp idle c member
  rfl

/-! ### A call among calls that are done -/

theorem step_last (sink : Sink ω) {p : Pool ω} {others : List Call} {c : Call}
    (idle : ∀ d ∈ others, ∃ result, d = .done result) (calls : p.calls = others ++ [c])
    (now : Int) :
    p.step sink (.advance now others.length) =
      let taken := c.step sink.watched now p.feed (p.world, [])
      { feed := taken.2.1, world := taken.2.2.1, calls := others ++ [taken.1],
        log := (taken.2.2.2.map (fun write => Event.wrote write.1 write.2) ++
          c.shows p.feed).map (others.length, ·) ++ p.log } := by
  have made : p.calls[others.length]? = some c := by simp [calls]
  have free : p.free c.needs = true := by
    rw [free_iff, calls]
    intro d member lock needed
    rcases List.mem_append.mp member with other | own
    · obtain ⟨result, rfl⟩ := idle d other
      simp [Call.holds]
    · rw [List.mem_singleton.mp own]
      cases c <;> cases needed <;> simp [Call.holds]
  rw [step_taken sink p now made free]
  simp [calls]

/-- Nothing but the detector of still content, and what the encoder left behind for nobody to see,
has changed, and nothing was written. -/
structure Spared (sink : Sink ω) (p q : Pool ω) : Prop where
  world : q.world = p.world
  unwritten : ∃ events, q.log = events.map (p.calls.length, ·) ++ p.log ∧
    Event.writes events = []
  feed : q.feed.withOutput p.feed.output = { p.feed with stillness := q.feed.stillness }
  unseen : ∀ moves, ∃ left,
    q.run sink moves = ((q.withOutput p.feed.output).run sink moves).withOutput left

variable {sink : Sink ω} {p q : Pool ω} {result : Except Failure Outcome}

theorem Spared.rateLimit_eq (spared : Spared sink p q) : q.feed.rateLimit = p.feed.rateLimit := by
  have kept := congrArg Feed.rateLimit spared.feed
  exact kept

theorem Spared.lastPicture_eq (spared : Spared sink p q) :
    q.feed.lastPicture = p.feed.lastPicture := by
  have kept := congrArg Feed.lastPicture spared.feed
  exact kept

theorem spared_of_done (idle : p.allDone = true) (calls : q.calls = p.calls ++ [.done result])
    (world : q.world = p.world)
    (unwritten : ∃ events, q.log = events.map (p.calls.length, ·) ++ p.log ∧
      Event.writes events = [])
    (feed : q.feed.withOutput p.feed.output = { p.feed with stillness := q.feed.stillness }) :
    Spared sink p q := by
  refine ⟨world, unwritten, feed, ?_⟩
  have unaware : (q.withOutput p.feed.output).Unaware := by
    intro c member
    have member : c ∈ p.calls ++ [.done result] := calls ▸ member
    rcases List.mem_append.mp member with member | member
    · exact unaware_of_allDone idle c member
    · rw [List.mem_singleton.mp member]
      rfl
  exact run_withOutput sink unaware q.feed.output

theorem run_letIn (sink : Sink ω) (idle : p.allDone = true) {now : Int} {pixels : Picture.Pixels}
    (taken : Call.frame p.feed now pixels =
      (.encode ⟨pixels, now, .live p.feed.rateLimit.lastAccepted⟩,
        p.feed.letIn now pixels.change)) (first : Int) (moves : List (Move ω)) :
    ∃ events, Event.writes events = [] ∧
      p.run sink (.start now (.frame pixels) :: .advance first p.calls.length :: moves) =
        Pool.run sink
          { feed :=
              { p.feed.letIn now pixels.change with output := (p.feed.encode pixels).2.output }
            world := p.world
            calls := p.calls ++
              [Call.encoded ⟨pixels, now, .live p.feed.rateLimit.lastAccepted⟩
                (p.feed.encode pixels).1]
            log := events.map (p.calls.length, ·) ++ p.log } moves := by
  have start : p.step sink (.start now (.frame pixels)) =
      { feed := p.feed.letIn now pixels.change, world := p.world,
        calls := p.calls ++ [.encode ⟨pixels, now, .live p.feed.rateLimit.lastAccepted⟩],
        log := [.claimed now p.feed.rateLimit.lastAccepted, .asked (.frame pixels)].map
          (p.calls.length, ·) ++ p.log } := by
    simp only [step, Request.enter, taken]
    rfl
  have encode := Feed.encode_of_encoder (f := p.feed) (g := p.feed.letIn now pixels.change) rfl
    pixels
  refine ⟨[.encoded pixels.trimmed (p.feed.encoder pixels.trimmed),
    .claimed now p.feed.rateLimit.lastAccepted, .asked (.frame pixels)], rfl, ?_⟩
  rw [run, List.foldl_cons, List.foldl_cons, start, step_last sink (allDone_iff.mp idle) rfl]
  simp only [Call.step, encode]
  rfl

/-- Once it is done, a call for a frame that is refused has changed nothing but the detector of
still content, and not even that if the frame does not pass its check. A frame that is not refused
is published. -/
theorem run_refused (sink : Sink ω) {p : Pool ω} (idle : p.allDone = true) (now : Int)
    (pixels : Picture.Pixels) (times : List Int) (enough : 2 ≤ times.length) :
    let q := p.run sink (.start now (.frame pixels) :: times.map (.advance · p.calls.length))
    (∀ result, p.feed.Refuses now pixels result →
      q.calls = p.calls ++ [.done result] ∧ Spared sink p q ∧
        (pixels.check ≠ .ok () → q.feed = p.feed)) ∧
    ((∀ result, ¬ p.feed.Refuses now pixels result) →
      (p.calls.length, .published (p.feed.encode pixels).2.output) ∈ q.log) := by
  intro q
  obtain ⟨first, second, rest, rfl⟩ : ∃ first second rest, times = first :: second :: rest := by
    match times, enough with
    | first :: second :: rest, _ => exact ⟨first, second, rest, rfl⟩
  refine ⟨?_, ?_⟩
  · intro result refuses
    rcases refuses.frame_cases with
      ⟨stillness, turned, unasked⟩ | ⟨failure, rfl, valid, failed, taken⟩
    · have start : p.step sink (.start now (.frame pixels)) =
          { feed := { p.feed with stillness }, world := p.world, calls := p.calls ++ [.done result],
            log := (p.calls.length, .asked (.frame pixels)) :: p.log } := by
        simp only [step, Request.enter, turned]
        rfl
      have final : q = p.step sink (.start now (.frame pixels)) :=
        run_of_done sink (congrArg Pool.calls start) (first :: second :: rest)
      rw [final, start]
      refine ⟨rfl, spared_of_done idle rfl rfl ⟨[.asked (.frame pixels)], rfl, rfl⟩ rfl, ?_⟩
      intro invalid
      rw [unasked invalid]
    · obtain ⟨events, unwritten, encoded⟩ := run_letIn sink idle taken first
        ((second :: rest).map (.advance · p.calls.length))
      have final : q =
          { feed :=
              { p.feed with
                stillness := p.feed.stillness.seen now pixels.change
                output := (p.feed.encode pixels).2.output }
            world := p.world
            calls := p.calls ++ [.done (.error failure)]
            log := (.gaveBack :: events).map (p.calls.length, ·) ++ p.log } := by
        refine encoded.trans ?_
        rw [failed, List.map_cons, run, List.foldl_cons, step_last sink (allDone_iff.mp idle) rfl]
        refine (run_of_done sink rfl rest).trans ?_
        simp [Call.step, Call.encoded, Call.shows, Feed.release_letIn]
      rw [final]
      refine ⟨rfl, spared_of_done idle rfl rfl ⟨.gaveBack :: events, rfl, unwritten⟩ rfl, ?_⟩
      exact fun invalid => absurd valid invalid
  · intro passes
    obtain ⟨quality, made, taken⟩ := Feed.frame_of_not_refused passes
    obtain ⟨events, -, encoded⟩ := run_letIn sink idle taken first
      ((second :: rest).map (.advance · p.calls.length))
    have whole : q = _ := encoded
    rw [whole, made, List.map_cons, run, List.foldl_cons, step_last sink (allDone_iff.mp idle) rfl]
    exact (log_run sink _ _).subset (by simp [Call.encoded, Call.shows])

def afterOne : Pool Record :=
  (start (.new { dropInterval := 100 } { resolution := .uniform ⟨1, 1⟩ }
    (fun frame => if frame.data = [1, 2, 3, 4] then .ok (90, frame.data)
      else .error (.encoding .crashed)) 0 0) {}).run Record.sink
    [.start 0 (.frame { data := [1, 2, 3, 4], width := 1, height := 1 }), .advance 0 0,
      .advance 0 0,
      .advance 0 0, .advance 0 0]

theorem run_refused_by_crash :
    let frame : Picture.Pixels := { data := [5, 6, 7, 8], width := 1, height := 1 }
    let q := afterOne.run Record.sink
      (.start (millis 200) (.frame frame) ::
        [(millis 210 : Int), millis 220].map (.advance · afterOne.calls.length))
    afterOne.allDone = true ∧ 2 ≤ [(millis 210 : Int), millis 220].length ∧
      q.calls = afterOne.calls ++ [.done (.error (.encoding .crashed))] ∧
      q.feed.rateLimit = ⟨millis 100, some 0⟩ ∧ q.feed.lastPicture = some [1, 2, 3, 4] ∧
      q.world = afterOne.world := by
  intro frame q
  have idle : afterOne.allDone = true := by decide +kernel
  have refuses : afterOne.feed.Refuses (millis 200) frame (.error (.encoding .crashed)) :=
    .encoding rfl rfl rfl
  obtain ⟨calls, spared, -⟩ : q.calls = _ ∧ Spared Record.sink afterOne q ∧ _ :=
    (run_refused Record.sink idle (millis 200) frame [(millis 210 : Int), millis 220]
      (by decide)).1 _ refuses
  clear_value q
  have slot : afterOne.feed.rateLimit = ⟨millis 100, some 0⟩ := by decide +kernel
  have last : afterOne.feed.lastPicture = some [1, 2, 3, 4] := by decide +kernel
  exact ⟨idle, by decide, calls, spared.rateLimit_eq.trans slot, spared.lastPicture_eq.trans last,
    spared.world⟩

end Pool

end ScreenPreview.Stream
