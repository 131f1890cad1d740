import ScreenPreview.Proofs.Stream.Cycle

/-!
What the encoder made last.

The output of the encoder is looked at only by the call that had it made, and the encoder is not
given to another call before that. What an encoding leaves behind that failed, or that is published
already, is written over before anyone looks at it, so it makes no difference (`run_withOutput`).
-/
namespace ScreenPreview.Stream

def Call.awaitsOutput : Call → Bool
  | accept .. | publish .. => true
  | _ => false

namespace Feed

def withOutput (f : Feed) (output : Bytes) : Feed := { f with output }

theorem pack_withOutput (f : Feed) (output : Bytes) (ready : Bool) (header : Wire.Header)
    (payload : Bytes) :
    (f.withOutput output).pack ready header payload =
      (f.pack ready header payload).map (·.withOutput output) := by
  have outlet : (f.withOutput output).outlet = f.outlet := rfl
  rw [pack, pack, outlet]
  cases f.outlet.pack ready header payload <;> rfl

theorem packLast_withOutput (f : Feed) (output : Bytes) (ready : Bool) (flags : Wire.Flags) :
    (f.withOutput output).packLast ready flags =
      (f.packLast ready flags).map (·.withOutput output) := by
  have last : (f.withOutput output).lastPicture = f.lastPicture := rfl
  rw [packLast, packLast, last]
  cases f.lastPicture with
  | none => rfl
  | some picture => exact f.pack_withOutput output ready (f.header flags) picture

theorem write_withOutput {ω : Type} (sink : Sink ω) (f : Feed) (output : Bytes) (w : ω) :
    (f.withOutput output).write sink w = ((f.write sink w).1,
      (f.write sink w).2.1.withOutput output, (f.write sink w).2.2) := rfl

theorem admitLive_withOutput (f : Feed) (output : Bytes) (now : Int) (change : Int32) :
    (f.withOutput output).admitLive now change =
      ((f.admitLive now change).1, (f.admitLive now change).2.withOutput output) := by
  have card : (f.withOutput output).stillness = f.stillness := rfl
  have slot : (f.withOutput output).rateLimit = f.rateLimit := rfl
  simp only [admitLive, card, slot]
  split
  · rfl
  · split
    · rfl
    · split <;> rfl

theorem admitLoad_withOutput (f : Feed) (output : Bytes) (pixels : Picture.Pixels) :
    (f.withOutput output).admitLoad pixels =
      ((f.admitLoad pixels).1, (f.admitLoad pixels).2.withOutput output) := by
  have load : (f.withOutput output).upkeep = f.upkeep := rfl
  simp only [admitLoad, load]
  split
  · rfl
  · split <;> rfl

end Feed

namespace Request

theorem enter_withOutput (request : Request) (now : Int) (f : Feed) (output : Bytes) :
    request.enter now (f.withOutput output) =
      ((request.enter now f).1, (request.enter now f).2.withOutput output) := by
  cases request with
  | frame pixels =>
    simp only [enter, Call.frame, Feed.admitLive_withOutput]
    split
    · rfl
    · rcases f.admitLive now pixels.change with ⟨admission, g⟩
      cases admission <;> rfl
  | loadFrame pixels =>
    simp only [enter, Call.loadFrame, Feed.admitLoad_withOutput]
    split
    · rfl
    · rcases f.admitLoad pixels with ⟨admission, g⟩
      cases admission <;> rfl
  | intent due => rfl
  | fit => rfl

theorem awaitsOutput_enter (request : Request) (now : Int) (f : Feed) :
    (request.enter now f).1.awaitsOutput = false := by
  have opens := request.opens_enter now f
  generalize (request.enter now f).1 = c at opens
  cases opens <;> rfl

end Request

theorem Control.apply_withOutput (now : Int) (f : Feed) (output : Bytes) (change : Control) :
    change.apply now (f.withOutput output) = (change.apply now f).withOutput output := by
  cases change <;> rfl

namespace Call

variable {ω : Type}

theorem packed_withOutput (purpose : Purpose) (f : Feed) (output : Bytes)
    (result : Except Failure Feed) :
    packed purpose (f.withOutput output) (result.map (·.withOutput output)) =
      ((packed purpose f result).1, (packed purpose f result).2.withOutput output) := by
  cases result <;> rfl

theorem awaitsOutput_packed (purpose : Purpose) (f : Feed) (result : Except Failure Feed) :
    (packed purpose f result).1.awaitsOutput = false := by
  cases result <;> rfl

theorem step_withOutput (sink : Sink ω) {c : Call} (unaware : c.awaitsOutput = false) (now : Int)
    (f : Feed) (output : Bytes) (w : ω) :
    c.step sink now (f.withOutput output) w = c.step sink now f w ∨
      c.step sink now (f.withOutput output) w = ((c.step sink now f w).1,
        (c.step sink now f w).2.1.withOutput output, (c.step sink now f w).2.2) ∧
      (c.step sink now f w).1.awaitsOutput = false := by
  cases c with
  -- The output is written over, whatever it was.
  | encode job => exact Or.inl rfl
  | release job previous failure => exact Or.inr ⟨rfl, rfl⟩
  | repack =>
    have last : (f.withOutput output).lastPicture = f.lastPicture := rfl
    refine Or.inr ⟨?_, awaitsOutput_packed _ _ _⟩
    simp only [step, last, Feed.packLast_withOutput, packed_withOutput]
  | heartbeat => exact Or.inr ⟨rfl, rfl⟩
  | packHeartbeat header =>
    refine Or.inr ⟨?_, awaitsOutput_packed _ _ _⟩
    simp only [step, Feed.pack_withOutput, packed_withOutput]
  | write purpose =>
    refine Or.inr ?_
    simp only [step, Feed.write_withOutput]
    rcases f.write sink w with ⟨result, g, v⟩
    cases result <;> exact ⟨rfl, rfl⟩
  | record purpose bytes =>
    refine Or.inr ⟨?_, rfl⟩
    cases purpose <;> rfl
  | resize capacity => exact Or.inr ⟨rfl, rfl⟩
  | done result => exact Or.inr ⟨rfl, rfl⟩
  | accept => cases unaware
  | publish => cases unaware

theorem shows_withOutput {c : Call} (unaware : c.awaitsOutput = false) (f : Feed)
    (output : Bytes) : c.shows (f.withOutput output) = c.shows f := by
  cases c with
  | accept => cases unaware
  | publish => cases unaware
  | _ => rfl

end Call

namespace Pool

variable {ω : Type}

def withOutput (p : Pool ω) (output : Bytes) : Pool ω :=
  { p with feed := p.feed.withOutput output }

/-- No call of the pool is about to publish what the encoder made. -/
def Unaware (p : Pool ω) : Prop := ∀ c ∈ p.calls, c.awaitsOutput = false

theorem step_taken (sink : Sink ω) (p : Pool ω) (now : Int) {number : Nat} {c : Call}
    (made : p.calls[number]? = some c) (free : p.free c.needs = true) :
    p.step sink (.advance now number) =
      let taken := c.step sink.watched now p.feed (p.world, [])
      { feed := taken.2.1, world := taken.2.2.1, calls := p.calls.set number taken.1,
        log := (taken.2.2.2.map (fun write => Event.wrote write.1 write.2) ++
          c.shows p.feed).map (number, ·) ++ p.log } := by
  simp only [step, made, free, if_true]

theorem step_withOutput (sink : Sink ω) {p : Pool ω} (unaware : p.Unaware) (output : Bytes)
    (move : Move ω) :
    (p.withOutput output).step sink move = p.step sink move ∨
      (p.withOutput output).step sink move = (p.step sink move).withOutput output ∧
        (p.step sink move).Unaware := by
  cases move with
  | start now request =>
    refine Or.inr ⟨?_, ?_⟩
    · simp only [step, withOutput, Request.enter_withOutput]
    · intro c member
      rcases List.mem_append.mp member with member | member
      · exact unaware c member
      · rw [List.mem_singleton.mp member]
        exact request.awaitsOutput_enter now p.feed
  | advance now number =>
    cases made : p.calls[number]? with
    | none =>
      have nobody : (p.withOutput output).calls[number]? = none := made
      refine Or.inr ?_
      simp only [step, made, nobody, true_and]
      exact unaware
    | some c =>
      have made' : (p.withOutput output).calls[number]? = some c := made
      cases free : p.free c.needs with
      | false =>
        rw [step_of_waits sink p now made free, step_of_waits sink _ now made' free]
        exact Or.inr ⟨rfl, unaware⟩
      | true =>
        have own := unaware c (List.mem_of_getElem? made)
        rw [step_taken sink p now made free, step_taken sink _ now made' free]
        have shows : c.shows (p.withOutput output).feed = c.shows p.feed :=
          Call.shows_withOutput own p.feed output
        rw [shows]
        rcases Call.step_withOutput sink.watched own now p.feed output (p.world, [])
          with same | ⟨apart, further⟩
        · refine Or.inl ?_
          simp only [withOutput, same]
        · refine Or.inr ⟨?_, ?_⟩
          · simp only [withOutput, apart]
          · intro d member
            rcases List.mem_or_eq_of_mem_set member with member | rfl
            · exact unaware d member
            · exact further
  | control now change =>
    have free : (p.withOutput output).free change.needs = p.free change.needs := rfl
    refine Or.inr ?_
    simp only [step, free]
    split
    · simp only [withOutput, Control.apply_withOutput, true_and]
      exact unaware
    · exact ⟨rfl, unaware⟩
  | world world => exact Or.inr ⟨rfl, unaware⟩

/-- Two pools that differ in the output of the encoder alone do the same for ever, if no call is
about to publish it. -/
theorem run_withOutput (sink : Sink ω) {p : Pool ω} (unaware : p.Unaware) (output : Bytes)
    (moves : List (Move ω)) :
    ∃ left, (p.withOutput output).run sink moves = (p.run sink moves).withOutput left := by
  induction moves generalizing p with
  | nil => exact ⟨output, rfl⟩
  | cons move rest ih =>
    simp only [run, List.foldl_cons]
    rcases step_withOutput sink unaware output move with same | ⟨apart, further⟩
    · exact ⟨((p.step sink move).run sink rest).feed.output, by rw [same]; rfl⟩
    · rw [apart]
      exact ih further

end Pool

end ScreenPreview.Stream
