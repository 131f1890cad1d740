import ScreenPreview.Proofs.Stream.Packing
import ScreenPreview.Proofs.Stream.Pool

/-!
What one section of a call can do.

`Call.Section` says it once for the further sections and `Request.Opens` for the first ones. What
is proved of whole runs goes by cases on these two and unfolds no section again.
-/
namespace ScreenPreview.Stream

/-! ### What a section does -/

namespace Call

/-- What a section packs: what it does before that, the feed it packs in, what the packed frame is
for, its header and its payload. -/
inductive Packing : Call → Feed → List Event → Feed → Purpose → Wire.Header → Bytes → Prop
  | publish (job : Job) (quality : UInt8) (f : Feed) :
    Packing (.publish job quality) f [.published f.output] (f.publish job.admitted)
      (.picture job quality) (f.header job.flags) f.output
  | repack {f : Feed} {picture : Bytes} (last : f.lastPicture = some picture) :
    Packing .repack f [] f .resend (f.header .resend) picture
  | heartbeat (header : Wire.Header) (f : Feed) :
    Packing (.packHeartbeat header) f [] f .heartbeat header []

/-- Everything that the next section of a call can do. -/
inductive Section {ω : Type} (sink : Sink ω) : Call → Feed → List Event → Call → Feed → Prop
  | encode (job : Job) (f : Feed) :
    Section sink (.encode job) f [.encoded job.frame.trimmed (f.encoder job.frame.trimmed)]
      (encoded job (f.encode job.frame).1) (f.encode job.frame).2
  | release (job : Job) (previous : Option Int) (failure : Failure) (f : Feed) :
    Section sink (.release job previous failure) f [.gaveBack] (.done (.error failure))
      (f.release job.admitted previous)
  | accept (job : Job) (quality : UInt8) (f : Feed) :
    Section sink (.accept job quality) f [] (.publish job quality)
      (f.acceptLoad job.admitted)
  | heartbeat (f : Feed) : Section sink .heartbeat f [] (.packHeartbeat (f.header .empty)) f
  | packed {c : Call} {f g h : Feed} {events : List Event} {purpose : Purpose} {ready : Bool}
    {header : Wire.Header} {payload : Bytes}
    (packing : Packing c f events g purpose header payload)
    (packs : g.pack ready header payload = .ok h) : Section sink c f events (.write purpose) h
  | unpacked {c : Call} {f g : Feed} {events : List Event} {purpose : Purpose} {ready : Bool}
    {header : Wire.Header} {payload : Bytes} {failure : Failure}
    (packing : Packing c f events g purpose header payload)
    (refused : g.pack ready header payload = .error failure) :
    Section sink c f events (.done (.error failure)) g
  | noPicture {f : Feed} (nothing : f.lastPicture = none) :
    Section sink .repack f [] (.done (.error .noPicture)) f
  | wrote {f : Feed} {wire : Bytes} {bytes : Nat} (purpose : Purpose) (w : ω)
    (there : f.outlet.wire? = .ok wire) (written : (sink.write wire w).1.result = .ok bytes) :
    Section sink (.write purpose) f [.wrote wire (.ok bytes)] (.record purpose bytes)
      { f with outlet := f.outlet.delivered (sink.write wire w).1 }
  | broke {f : Feed} {wire : Bytes} {failure : Failure} (purpose : Purpose) (w : ω)
    (there : f.outlet.wire? = .ok wire) (failed : (sink.write wire w).1.result = .error failure) :
    Section sink (.write purpose) f [.wrote wire (.error failure)] (.done (.error failure))
      { f with outlet := f.outlet.delivered (sink.write wire w).1 }
  | nothing {f : Feed} {failure : Failure} (purpose : Purpose)
    (missing : f.outlet.wire? = .error failure) :
    Section sink (.write purpose) f [] (.done (.error failure)) f
  | record (purpose : Purpose) (now : Int) (bytes : Nat) (f : Feed) :
    Section sink (.record purpose bytes) f [] (.done (.ok (outcome purpose bytes)))
      (recorded purpose now bytes f)
  | resize (capacity : Nat) (f : Feed) :
    Section sink (.resize capacity) f [] (.done (.ok (.resized capacity))) (f.resizeTo capacity)
  | done (result : Except Failure Outcome) (f : Feed) :
    Section sink (.done result) f [] (.done result) f

variable {ω : Type} {sink : Sink ω}

theorem section_packed {c d : Call} {f g h : Feed} {events : List Event} {purpose : Purpose}
    {ready : Bool} {header : Wire.Header} {payload : Bytes}
    (packing : Packing c f events g purpose header payload)
    (taken : packed purpose g (g.pack ready header payload) = (d, h)) :
    Section sink c f events d h := by
  unfold packed at taken
  split at taken
  · cases taken
    exact .packed packing ‹_›
  · cases taken
    exact .unpacked packing ‹_›

theorem section_step {now : Int} {c d : Call} {f g : Feed} {w v : ω}
    {seen : List (Bytes × Except Failure Nat)}
    (taken : c.step sink.watched now f (w, []) = (d, g, v, seen)) :
    Section sink c f (seen.map (fun write => .wrote write.1 write.2) ++ c.shows f) d g := by
  cases c with
  | encode job =>
    cases taken
    exact .encode job f
  | release job previous failure =>
    cases taken
    exact .release job previous failure f
  | accept job quality =>
    cases taken
    exact .accept job quality f
  | publish job quality =>
    simp only [step, Sink.watched, Prod.mk.injEq] at taken
    obtain ⟨rfl, rfl, -, rfl⟩ := taken
    exact section_packed (.publish job quality f) rfl
  | repack =>
    cases last : f.lastPicture with
    | none =>
      simp only [step, last, Feed.packLast, packed] at taken
      cases taken
      exact .noPicture last
    | some picture =>
      simp only [step, last, Feed.packLast, Option.isSome_some, if_true, Sink.watched,
        Prod.mk.injEq] at taken
      obtain ⟨rfl, rfl, -, rfl⟩ := taken
      exact section_packed (.repack last) rfl
  | heartbeat =>
    cases taken
    exact .heartbeat f
  | packHeartbeat header =>
    simp only [step, Sink.watched, Prod.mk.injEq] at taken
    obtain ⟨rfl, rfl, -, rfl⟩ := taken
    exact section_packed (.heartbeat header f) rfl
  | write purpose =>
    simp only [step, Feed.write, Outlet.deliver] at taken
    cases there : f.outlet.wire? with
    | error failure =>
      simp only [there] at taken
      cases taken
      exact .nothing purpose there
    | ok wire =>
      simp only [there, Sink.watched] at taken
      cases result : (sink.write wire w).1.result with
      | ok bytes =>
        simp only [result] at taken
        cases taken
        exact .wrote purpose w there result
      | error failure =>
        simp only [result] at taken
        cases taken
        exact .broke purpose w there result
  | record purpose bytes =>
    cases taken
    exact .record purpose now bytes f
  | resize capacity =>
    cases taken
    exact .resize capacity f
  | done result =>
    cases taken
    exact .done result f

/-! ### What a section leaves alone -/

/-- The call holds the lock or takes it for its next section. -/
def Uses (c : Call) (lock : Lock) : Prop := lock ∈ c.holds ∨ c.needs = some lock

variable {c d : Call} {f g : Feed} {events : List Event} {purpose : Purpose}
  {header : Wire.Header} {payload : Bytes}

theorem Packing.keeps (packing : Packing c f events g purpose header payload) :
    g.outlet = f.outlet ∧ g.output = f.output ∧ g.rateLimit = f.rateLimit := by
  cases packing <;> exact ⟨rfl, rfl, rfl⟩

theorem Packing.uses (packing : Packing c f events g purpose header payload) :
    c.Uses .outlet := by
  cases packing with
  | publish => exact Or.inr rfl
  | repack => exact Or.inr rfl
  | heartbeat => exact Or.inl List.mem_cons_self

theorem Packing.header_eq (packing : Packing c f events g purpose header payload) :
    g.header = f.header := by
  cases packing <;> rfl

theorem Packing.holds_of {lock : Lock} (packing : Packing c f events g purpose header payload)
    (held : lock ∈ (write purpose).holds) : c.Uses lock := by
  cases packing with
  | publish job quality => simpa [Uses, holds, needs, or_comm, eq_comm] using held
  | repack last => simpa [Uses, holds, needs, eq_comm] using held
  | heartbeat => simpa [Uses, holds, needs, eq_comm] using held

theorem recorded_keeps (purpose : Purpose) (now : Int) (bytes : Nat) (f : Feed) :
    (recorded purpose now bytes f).outlet = f.outlet ∧
      (recorded purpose now bytes f).output = f.output ∧
      (recorded purpose now bytes f).lastPicture = f.lastPicture ∧
      (recorded purpose now bytes f).rateLimit = f.rateLimit := by
  cases purpose <;> exact ⟨rfl, rfl, rfl, rfl⟩

theorem Section.requests_eq (taken : Section sink c f events d g) : Event.requests events = [] := by
  cases taken with
  | packed packing => cases packing <;> rfl
  | unpacked packing => cases packing <;> rfl
  | _ => rfl

theorem Section.events_cases (taken : Section sink c f events d g) :
    events = [] ∨ ∃ event, events = [event] := by
  cases taken with
  | packed packing => cases packing <;> simp
  | unpacked packing => cases packing <;> simp
  | _ => simp

theorem Section.of_wrote (taken : Section sink c f events d g) {wire : Bytes}
    {result : Except Failure Nat} (wrote : .wrote wire result ∈ events) :
    ∃ purpose w, c = .write purpose ∧ f.outlet.wire? = .ok wire ∧
      (sink.write wire w).1.result = result := by
  cases taken with
  | packed packing => cases packing <;> simp at wrote
  | unpacked packing => cases packing <;> simp at wrote
  | wrote purpose w there written =>
    obtain ⟨rfl, rfl⟩ := Event.wrote.inj (List.mem_singleton.mp wrote)
    exact ⟨purpose, w, rfl, there, written⟩
  | broke purpose w there failed =>
    obtain ⟨rfl, rfl⟩ := Event.wrote.inj (List.mem_singleton.mp wrote)
    exact ⟨purpose, w, rfl, there, failed⟩
  | _ => simp at wrote

theorem Section.output_eq (taken : Section sink c f events d g) (idle : ¬ c.Uses .encoder) :
    g.output = f.output := by
  cases taken with
  | encode job => exact absurd (Or.inr rfl) idle
  | packed packing packs =>
    obtain ⟨_, _, -, rfl⟩ := Feed.pack_ok packs
    exact packing.keeps.2.1
  | unpacked packing => exact packing.keeps.2.1
  | record purpose now bytes => exact (recorded_keeps purpose now bytes f).2.1
  | _ => rfl

theorem Section.outlet_eq (taken : Section sink c f events d g) (idle : ¬ c.Uses .outlet) :
    g.outlet = f.outlet ∧ g.lastPicture = f.lastPicture := by
  cases taken with
  | encode job =>
    unfold Feed.encode
    split <;> exact ⟨rfl, rfl⟩
  | packed packing => exact absurd packing.uses idle
  | unpacked packing => exact absurd packing.uses idle
  | noPicture => exact ⟨rfl, rfl⟩
  | wrote purpose => exact absurd (Or.inl (by cases purpose <;> simp [holds])) idle
  | broke purpose => exact absurd (Or.inl (by cases purpose <;> simp [holds])) idle
  | record purpose now bytes =>
    exact ⟨(recorded_keeps purpose now bytes f).1, (recorded_keeps purpose now bytes f).2.2.1⟩
  | resize => exact absurd (Or.inr rfl) idle
  | _ => exact ⟨rfl, rfl⟩

theorem Section.encoder_eq (taken : Section sink c f events d g) :
    g.encoder = f.encoder := by
  cases taken with
  | encode job =>
    unfold Feed.encode
    split <;> rfl
  | packed packing packs =>
    obtain ⟨_, _, -, rfl⟩ := Feed.pack_ok packs
    cases packing <;> rfl
  | unpacked packing => cases packing <;> rfl
  | record purpose => cases purpose <;> rfl
  | _ => rfl

/-- After a section a call holds no lock that it did not hold or take. -/
theorem Section.uses_of_holds (taken : Section sink c f events d g) {lock : Lock}
    (held : lock ∈ d.holds) : c.Uses lock := by
  cases taken with
  | encode job =>
    refine Or.inr ?_
    unfold encoded at held
    split at held
    · split at held <;> simp_all [holds, needs]
    · split at held <;> simp [holds] at held
  | accept => exact Or.inl held
  | heartbeat =>
    obtain rfl := List.mem_singleton.mp held
    exact Or.inr rfl
  | packed packing => exact packing.holds_of held
  | wrote purpose => exact Or.inl (by cases purpose <;> exact held)
  | done => exact Or.inl held
  | _ => simp [holds] at held

end Call

/-! ### First sections -/

namespace Feed

theorem admitLive_feed (f : Feed) (now : Int) (change : Int32) :
    ∃ rateLimit stillness, (f.admitLive now change).2 = { f with rateLimit, stillness } := by
  unfold admitLive
  split
  · exact ⟨_, _, rfl⟩
  · simp only
    split
    · exact ⟨_, _, rfl⟩
    · split <;> exact ⟨_, _, rfl⟩

theorem admitLoad_feed (f : Feed) (pixels : Picture.Pixels) :
    ∃ upkeep, (f.admitLoad pixels).2 = { f with upkeep } := by
  unfold admitLoad
  split
  · exact ⟨_, rfl⟩
  · simp only
    split <;> exact ⟨_, rfl⟩

end Feed

namespace Request

inductive Serves : Request → Job → Prop
  | live (pixels : Picture.Pixels) (now : Int) (previous : Option Int) :
    Serves (.frame pixels) ⟨pixels, now, .live previous⟩
  | load (pixels : Picture.Pixels) (now : Int) : Serves (.loadFrame pixels) ⟨pixels, now, .load⟩
  | replay (held : Upkeep.HeldFrame) (now : Int) :
    Serves (.intent (.replay held)) ⟨Call.heldPixels held, now, .replay⟩

theorem Serves.frame_eq {request : Request} {job : Job} (serves : Serves request job) :
    request.frame? = some job.frame := by
  cases serves <;> rfl

structure Quiet (result : Except Failure Outcome) : Prop where
  unsent : ∀ bytes quality, result ≠ .ok (.sent bytes quality)
  unwritten : ∀ bytes, result ≠ .ok (.written bytes)
  excused : result ≠ .error .nothingPacked

inductive Opens : Request → Call → Prop
  | encode {request : Request} {job : Job} (serves : Serves request job) :
    Opens request (.encode job)
  | repack : Opens (.intent .resend) .repack
  | heartbeat : Opens (.intent .heartbeat) .heartbeat
  | resize (capacity : Nat) : Opens .fit (.resize capacity)
  | done (request : Request) {result : Except Failure Outcome} (quiet : Quiet result) :
    Opens request (.done result)

theorem quiet_of_check {pixels : Picture.Pixels} {failure : Failure}
    (refused : pixels.check = .error failure) : Quiet (.error failure) := by
  refine ⟨by simp, by simp, ?_⟩
  unfold Picture.Pixels.check at refused
  rintro ⟨⟩
  split at refused
  · cases refused
  · split at refused
    · cases refused
    · split at refused <;> cases refused

theorem opens_enter (request : Request) (now : Int) (f : Feed) :
    request.Opens (request.enter now f).1 := by
  cases request with
  | frame pixels =>
    simp only [enter, Call.frame]
    cases check : pixels.check with
    | error failure => exact .done _ (quiet_of_check check)
    | ok _ =>
      simp only
      split
      · exact .encode (.live ..)
      · exact .done _ ⟨by simp, by simp, by simp⟩
      · exact .done _ ⟨by simp, by simp, by simp⟩
  | loadFrame pixels =>
    simp only [enter, Call.loadFrame]
    cases check : pixels.check with
    | error failure => exact .done _ (quiet_of_check check)
    | ok _ =>
      simp only
      split
      · exact .encode (.load ..)
      · exact .done _ ⟨by simp, by simp, by simp⟩
      · exact .done _ ⟨by simp, by simp, by simp⟩
  | intent due =>
    cases due with
    | replay held =>
      simp only [enter, Call.intent]
      cases check : (Call.heldPixels held).check with
      | error failure => exact .done _ (quiet_of_check check)
      | ok _ => exact .encode (.replay ..)
    | resend => exact .repack
    | heartbeat => exact .heartbeat
  | fit => exact .resize _

theorem rateLimit_admitLive (f : Feed) (now : Int) (change : Int32) :
    (∃ previous rateLimit, f.rateLimit.reserve now = some (previous, rateLimit) ∧
        (f.admitLive now change).1 = .admitted previous ∧
        (f.admitLive now change).2.rateLimit = rateLimit) ∨
      (∀ previous, (f.admitLive now change).1 ≠ .admitted previous) ∧
        (f.admitLive now change).2.rateLimit = f.rateLimit := by
  unfold Feed.admitLive
  split
  · exact Or.inr ⟨by simp, rfl⟩
  · simp only
    split
    · exact Or.inr ⟨by simp, rfl⟩
    · cases answer : f.rateLimit.reserve now with
      | none => exact Or.inr ⟨by simp, rfl⟩
      | some pair => exact Or.inl ⟨pair.1, pair.2, rfl, rfl, rfl⟩

theorem admitLoad_keeps (f : Feed) (pixels : Picture.Pixels) :
    (f.admitLoad pixels).2.outlet = f.outlet ∧ (f.admitLoad pixels).2.output = f.output ∧
      (f.admitLoad pixels).2.lastPicture = f.lastPicture ∧
      (f.admitLoad pixels).2.rateLimit = f.rateLimit := by
  obtain ⟨_, same⟩ := f.admitLoad_feed pixels
  rw [same]
  exact ⟨rfl, rfl, rfl, rfl⟩

theorem enter_feed (request : Request) (now : Int) (f : Feed) :
    ∃ rateLimit stillness upkeep,
      (request.enter now f).2 = { f with rateLimit, stillness, upkeep } := by
  cases request with
  | frame pixels =>
    obtain ⟨rateLimit, stillness, same⟩ := f.admitLive_feed now pixels.change
    simp only [enter, Call.frame]
    split
    · exact ⟨_, _, _, rfl⟩
    · refine ⟨rateLimit, stillness, f.upkeep, ?_⟩
      rw [← same]
      rcases f.admitLive now pixels.change with ⟨admission, g⟩
      cases admission <;> rfl
  | loadFrame pixels =>
    obtain ⟨upkeep, same⟩ := f.admitLoad_feed pixels
    simp only [enter, Call.loadFrame]
    split
    · exact ⟨_, _, _, rfl⟩
    · refine ⟨f.rateLimit, f.stillness, upkeep, ?_⟩
      rw [← same]
      rcases f.admitLoad pixels with ⟨admission, g⟩
      cases admission <;> rfl
  | intent => exact ⟨_, _, _, rfl⟩
  | fit => exact ⟨_, _, _, rfl⟩

theorem enter_keeps (request : Request) (now : Int) (f : Feed) :
    (request.enter now f).2.outlet = f.outlet ∧ (request.enter now f).2.output = f.output ∧
      (request.enter now f).2.lastPicture = f.lastPicture := by
  obtain ⟨_, _, _, same⟩ := request.enter_feed now f
  rw [same]
  exact ⟨rfl, rfl, rfl⟩

theorem rateLimit_enter (request : Request) (now : Int) (f : Feed) :
    ((request.enter now f).1.claims = [] ∧
        (request.enter now f).2.rateLimit = f.rateLimit) ∨
      ∃ pixels previous rateLimit, request = .frame pixels ∧
        (request.enter now f).1 = .encode ⟨pixels, now, .live previous⟩ ∧
        f.rateLimit.reserve now = some (previous, rateLimit) ∧
        (request.enter now f).2.rateLimit = rateLimit := by
  cases request with
  | frame pixels =>
    simp only [enter, Call.frame]
    cases pixels.check with
    | error failure => exact Or.inl ⟨rfl, rfl⟩
    | ok _ =>
      simp only
      rcases rateLimit_admitLive f now pixels.change with
        ⟨previous, rateLimit, answer, admitted, taken⟩ | ⟨refused, kept⟩
      · refine Or.inr ⟨pixels, previous, rateLimit, rfl, ?_⟩
        split <;> simp_all
      · refine Or.inl ?_
        split <;> simp_all [Call.claims]
  | loadFrame pixels =>
    have kept := (admitLoad_keeps f pixels).2.2.2
    simp only [enter, Call.loadFrame]
    cases pixels.check with
    | error failure => exact Or.inl ⟨rfl, rfl⟩
    | ok _ =>
      simp only
      refine Or.inl ?_
      split <;> simp_all [Call.claims]
  | intent due =>
    refine Or.inl ⟨?_, rfl⟩
    cases due with
    | replay held =>
      simp only [enter, Call.intent]
      split <;> rfl
    | resend => rfl
    | heartbeat => rfl
  | fit => exact Or.inl ⟨rfl, rfl⟩

end Request

end ScreenPreview.Stream
