import ScreenPreview.Stream.Feed

/-!
Calls on a feed, taken apart into sections. A call is a value that says what it does next, so any
order in which several calls take their sections is a run of `Call.step`, as far as the locks let it
(`Call.needs`, `Call.holds`).
-/
namespace ScreenPreview.Stream

inductive Outcome where
  | sent (bytes : Nat) (quality : UInt8)
  | written (bytes : Nat)
  | dropped
  | suppressed
  | cached
  | stale
  | resized (capacity : Nat)
  deriving DecidableEq, Repr

inductive Route where
  | live (previous : Option Int)
  | load
  | replay
  deriving DecidableEq, Repr

structure Job where
  frame : Picture.Pixels
  admitted : Int
  route : Route

def Job.flags (job : Job) : Wire.Flags :=
  match job.route with
  | .live _ => .none
  | .load => .loadDoc
  | .replay => .loadDoc

inductive Purpose where
  | picture (job : Job) (quality : UInt8)
  | resend
  | heartbeat

/-- A call in progress, by what it does next. -/
inductive Call where
  | encode (job : Job)
  | release (job : Job) (previous : Option Int) (failure : Failure)
  | accept (job : Job) (quality : UInt8)
  | publish (job : Job) (quality : UInt8)
  | repack
  | heartbeat
  | packHeartbeat (header : Wire.Header)
  | write (purpose : Purpose)
  | record (purpose : Purpose) (bytes : Nat)
  | resize (capacity : Nat)
  | done (result : Except Failure Outcome)

namespace Call

/-! ### First sections -/

def frame (f : Feed) (now : Int) (frame : Picture.Pixels) : Call × Feed :=
  match frame.check with
  | .error failure => (done (.error failure), f)
  | .ok () =>
    match f.admitLive now frame.change with
    | (.admitted previous, f) => (encode ⟨frame, now, .live previous⟩, f)
    | (.dropped, f) => (done (.ok .dropped), f)
    | (.suppressed, f) => (done (.ok .suppressed), f)

def loadFrame (f : Feed) (now : Int) (frame : Picture.Pixels) : Call × Feed :=
  match frame.check with
  | .error failure => (done (.error failure), f)
  | .ok () =>
    match f.admitLoad frame with
    | (.admitted, f) => (encode ⟨frame, now, .load⟩, f)
    | (.cached, f) => (done (.ok .cached), f)
    | (.stale, f) => (done (.ok .stale), f)

def heldPixels (held : Upkeep.HeldFrame) : Picture.Pixels :=
  { data := held.data, width := held.width, height := held.height, timestamp := held.timestamp }

def intent (now : Int) : Upkeep.Intent → Call
  | .replay held =>
    match (heldPixels held).check with
    | .error failure => done (.error failure)
    | .ok () => encode ⟨heldPixels held, now, .replay⟩
  | .resend => repack
  | .heartbeat => heartbeat

def fit (f : Feed) : Call := resize f.roomNow

/-! ### Further sections -/

def encoded (job : Job) : Except Failure UInt8 → Call
  | .ok quality =>
    match job.route with
    | .live _ => publish job quality
    | .load => accept job quality
    | .replay => accept job quality
  | .error failure =>
    match job.route with
    | .live previous => release job previous failure
    | .load => done (.error failure)
    | .replay => done (.error failure)

def packed (purpose : Purpose) (f : Feed) (result : Except Failure Feed) :
    Call × Feed :=
  match result with
  | .ok f => (write purpose, f)
  | .error failure => (done (.error failure), f)

def outcome (purpose : Purpose) (bytes : Nat) : Outcome :=
  match purpose with
  | .picture job quality =>
    match job.route with
    | .live _ => .sent bytes quality
    | .load => .sent bytes quality
    | .replay => .written bytes
  | .resend => .written bytes
  | .heartbeat => .written bytes

def recorded (purpose : Purpose) (now : Int) (bytes : Nat) (f : Feed) : Feed :=
  match purpose with
  | .picture _ _ => f.recordPicture now bytes
  | .resend => f.recordPicture now bytes
  | .heartbeat => f.recordHeartbeat

def step {ω : Type} (sink : Sink ω) (now : Int) (c : Call) (f : Feed) (w : ω) :
    Call × Feed × ω :=
  match c with
  | encode job =>
    let (result, f) := f.encode job.frame
    (encoded job result, f, w)
  | release job previous failure =>
    (done (.error failure), f.release job.admitted previous, w)
  | accept job quality => (publish job quality, f.acceptLoad job.admitted, w)
  | publish job quality =>
    let (ready, w) := sink.isReady w
    let f := f.publish job.admitted
    let (c, f) := packed (.picture job quality) f (f.pack ready (f.header job.flags) f.output)
    (c, f, w)
  | repack =>
    let (ready, w) := if f.lastPicture.isSome then sink.isReady w else (false, w)
    let (c, f) := packed .resend f (f.packLast ready .resend)
    (c, f, w)
  | heartbeat => (packHeartbeat (f.header .empty), f, w)
  | packHeartbeat header =>
    let (ready, w) := sink.isReady w
    let (c, f) := packed .heartbeat f (f.pack ready header [])
    (c, f, w)
  | write purpose =>
    match f.write sink w with
    | (.ok bytes, f, w) => (record purpose bytes, f, w)
    | (.error failure, f, w) => (done (.error failure), f, w)
  | record purpose bytes => (done (.ok (outcome purpose bytes)), recorded purpose now bytes f, w)
  | resize capacity => (done (.ok (.resized capacity)), f.resizeTo capacity, w)
  | done result => (done result, f, w)

/-! ### Locks -/

/-- The locks that are held over more than one section. -/
inductive Lock where
  | encoder
  | outlet
  deriving DecidableEq, Repr

def holds : Call → List Lock
  | accept .. | publish .. => [.encoder]
  | write (.picture _ _) | record (.picture _ _) _ => [.encoder, .outlet]
  | packHeartbeat _ | write _ | record _ _ => [.outlet]
  | _ => []

def needs : Call → Option Lock
  | encode _ => some .encoder
  | publish .. | repack | heartbeat | resize _ => some .outlet
  | _ => none

def awaitsEncoder : Call → Bool
  | encode _ => true
  | _ => false

/-! ### Carrying a call through -/

def sectionsLeft : Call → Nat
  | encode _ => 5
  | accept .. | heartbeat => 4
  | publish .. | repack | packHeartbeat _ => 3
  | write _ => 2
  | record .. | release .. | resize _ => 1
  | done _ => 0

def advance {ω : Type} (sink : Sink ω) (now : Int) :
    Nat → Call → Feed → ω → Call × Feed × ω
  | 0, c, f, w => (c, f, w)
  | n + 1, c, f, w =>
    let (c, f, w) := c.step sink now f w
    advance sink now n c f w

def result? : Call → Option (Except Failure Outcome)
  | done result => some result
  | _ => none

def finish {ω : Type} (sink : Sink ω) (now : Int) (c : Call) (f : Feed) (w : ω) :
    Except Failure Outcome × Feed × ω :=
  let (c, f, w) := advance sink now c.sectionsLeft c f w
  (c.result?.getD (.error .queueClosed), f, w)

theorem sectionsLeft_encoded (job : Job) (r : Except Failure UInt8) :
    (encoded job r).sectionsLeft ≤ 4 := by
  unfold encoded
  cases r <;> cases job.route <;> simp [sectionsLeft]

theorem sectionsLeft_packed (purpose : Purpose) (f : Feed) (r : Except Failure Feed) :
    (packed purpose f r).1.sectionsLeft ≤ 2 := by
  unfold packed
  cases r <;> simp [sectionsLeft]

theorem sectionsLeft_step {ω : Type} (sink : Sink ω) (now : Int) (c : Call) (f : Feed)
    (w : ω) : (c.step sink now f w).1.sectionsLeft ≤ c.sectionsLeft - 1 := by
  cases c with
  | encode job => exact sectionsLeft_encoded job _
  | publish job quality => exact sectionsLeft_packed _ _ _
  | repack => exact sectionsLeft_packed _ _ _
  | packHeartbeat header => exact sectionsLeft_packed _ _ _
  | write purpose => simp only [step]; split <;> simp [sectionsLeft]
  | _ => simp [step, sectionsLeft]

theorem sectionsLeft_advance {ω : Type} (sink : Sink ω) (now : Int) (n : Nat) (c : Call)
    (f : Feed) (w : ω) : (advance sink now n c f w).1.sectionsLeft ≤ c.sectionsLeft - n := by
  induction n generalizing c f w with
  | zero => simp [advance]
  | succ n ih =>
    have first := sectionsLeft_step sink now c f w
    have rest := ih (c.step sink now f w).1 (c.step sink now f w).2.1 (c.step sink now f w).2.2
    exact Nat.le_trans rest (by omega)

theorem eq_done_of_sectionsLeft {c : Call} (h : c.sectionsLeft = 0) : ∃ r, c = done r := by
  cases c <;> simp [sectionsLeft] at h ⊢

theorem finish_done {ω : Type} (sink : Sink ω) (now : Int) (c : Call) (f : Feed) (w : ω) :
    ∃ r, (advance sink now c.sectionsLeft c f w).1 = done r := by
  apply eq_done_of_sectionsLeft
  have := sectionsLeft_advance sink now c.sectionsLeft c f w
  omega

def toEncoder {ω : Type} (sink : Sink ω) (now : Int) (c : Call) (f : Feed) (w : ω) :
    Call × Feed × ω :=
  if c.awaitsEncoder then (c, f, w) else advance sink now c.sectionsLeft c f w

end Call

namespace Feed

variable {ω : Type}

def offer (sink : Sink ω) (now : Int) (frame : Picture.Pixels) (f : Feed) (w : ω) :
    Except Failure Outcome × Feed × ω :=
  let (c, f) := Call.frame f now frame
  c.finish sink now f w

def offerLoad (sink : Sink ω) (now : Int) (frame : Picture.Pixels) (f : Feed) (w : ω) :
    Except Failure Outcome × Feed × ω :=
  let (c, f) := Call.loadFrame f now frame
  c.finish sink now f w

def carryOut (sink : Sink ω) (now : Int) (intent : Upkeep.Intent) (f : Feed) (w : ω) :
    Except Failure Outcome × Feed × ω :=
  (Call.intent now intent).finish sink now f w

def carryOutAll (sink : Sink ω) (now : Int) :
    List Upkeep.Intent → Feed → ω → List (Except Failure Outcome) × Feed × ω
  | [], f, w => ([], f, w)
  | intent :: rest, f, w =>
    let (result, f, w) := carryOut sink now intent f w
    let (results, f, w) := carryOutAll sink now rest f w
    (result :: results, f, w)

def fitBuffer (f : Feed) : Feed := f.resizeTo f.roomNow

end Feed

end ScreenPreview.Stream
