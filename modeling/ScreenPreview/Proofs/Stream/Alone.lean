import ScreenPreview.Proofs.Picture.Checks
import ScreenPreview.Proofs.Stream.Load

/-!
A call that is carried through with nothing between its sections.

On a feed whose sink is ready and takes what it is given, such a call makes the picture of its frame
the last picture and hands it to the sink, if the encoder makes one and the wire buffer has room for
it (`finish_encode`). A repetition or a heartbeat changes neither the last picture nor the load.
-/
namespace ScreenPreview

def Picture.Encoder.picture? (e : Picture.Encoder) (p : Picture.Pixels) : Option Bytes :=
  match e p.trimmed with
  | .error _ => none
  | .ok (_, picture) => if picture.isEmpty then none else some picture

namespace Picture.Pixels

theorem check_heldPixels {p : Pixels} (valid : p.check = .ok ()) :
    (Stream.Call.heldPixels p.toHeld).check = .ok () := check_trimmed valid

end Picture.Pixels

namespace Wire.Flags

theorem ofBits?_eq_some_iff {b : UInt8} {f : Flags} :
    ofBits? b = some f ↔ b &&& known = b ∧ f = ⟨b⟩ := by
  unfold ofBits?
  split
  · simp [*, eq_comm]
  · simp [*]

theorem known_union {a b : Flags} (left : a.bits &&& known = a.bits)
    (right : b.bits &&& known = b.bits) : (a.union b).bits &&& known = (a.union b).bits := by
  have bits : (a.bits ||| b.bits) &&& known = (a.bits &&& known) ||| (b.bits &&& known) :=
    UInt8.toBitVec_inj.mp BitVec.and_or_distrib_right
  rw [union, bits, left, right]

theorem known_withIf {a b : Flags} (condition : Bool) (left : a.bits &&& known = a.bits)
    (right : b.bits &&& known = b.bits) :
    (a.withIf condition b).bits &&& known = (a.withIf condition b).bits := by
  cases condition with
  | false => exact left
  | true => exact known_union left right

end Wire.Flags

namespace Stream

/-! ### What a viewer reads off a wire -/

abbrev Writes := List (Bytes × Except Failure Nat)

def loadPicture? (reserve : Nat) (wire : Bytes) : Option Bytes :=
  match Wire.Header.ofBytes (wire.drop reserve) with
  | .error _ => none
  | .ok header =>
    if header.flags.includes .loadDoc then some (wire.drop (reserve + Wire.Header.size)) else none

def loadPictures (reserve : Nat) (writes : Writes) : List Bytes :=
  writes.filterMap fun write => loadPicture? reserve write.1

theorem loadPictures_append (reserve : Nat) (writes older : Writes) :
    loadPictures reserve (writes ++ older) =
      loadPictures reserve writes ++ loadPictures reserve older :=
  List.filterMap_append

theorem loadPicture?_of_layout (reserved payload : Bytes) {header : Wire.Header}
    (known : header.flags.bits &&& Wire.Flags.known = header.flags.bits) :
    loadPicture? reserved.length (reserved ++ (header.announcing payload).toBytes ++ payload) =
      if header.flags.includes .loadDoc then some payload else none := by
  have flags : Wire.Flags.ofBits? (header.announcing payload).flags.bits =
      some (header.announcing payload).flags := Wire.Flags.ofBits?_eq_some_iff.mpr ⟨known, rfl⟩
  have behind : (reserved ++ ((header.announcing payload).toBytes ++ payload)).drop
      (reserved.length + Wire.Header.size) = payload := by
    rw [← List.append_assoc]
    exact List.drop_left' (by simp)
  rw [loadPicture?, List.append_assoc, List.drop_left, Wire.Header.ofBytes_append _ flags, behind]
  rfl

/-! ### Feeds and sinks that send -/

structure Feed.Fitted (encoder : Picture.Encoder) (reserve room : Nat) (f : Feed) : Prop where
  encoder : f.encoder = encoder
  whole : f.outlet.partsOnly = false
  reserves : f.outlet.buffer.Reserves reserve
  room : f.outlet.capacity = room

/-- Within some worlds a sink is ready and takes every write, and they are not left by that. -/
structure Sink.Serves {ω : Type} (sink : Sink ω) (within : ω → Prop) : Prop where
  ready : ∀ w, within w → (sink.isReady w).1 = true
  asked : ∀ w, within w → within (sink.isReady w).2
  takes : ∀ wire w, within w → ∃ count, (sink.write wire w).1.result = .ok count
  wrote : ∀ wire w, within w → within (sink.write wire w).2

variable {ω : Type} {sink : Sink ω} {within : ω → Prop} {encoder : Picture.Encoder}
  {n room : Nat} {f g : Feed}

namespace Feed

theorem Fitted.of_eq (fitted : f.Fitted encoder n room) (same : g.encoder = f.encoder)
    (outlet : g.outlet = f.outlet) : g.Fitted encoder n room := by
  obtain ⟨encoder, whole, reserves, room⟩ := fitted
  refine ⟨same.trans encoder, ?_, ?_, ?_⟩ <;> rw [outlet] <;> assumption

theorem fitted_new (settings : Settings) (geometry : Screen.Geometry) (encoder : Picture.Encoder)
    (reserve : Nat) (now : Int) :
    (new settings geometry encoder reserve now).Fitted encoder reserve
      (payloadRoom settings geometry.resolution) where
  encoder := rfl
  whole := rfl
  reserves := PackBuffer.reserves_allocate reserve _
  room := PackBuffer.capacity_allocate reserve _

theorem known_header (f : Feed) {flags : Wire.Flags}
    (known : flags.bits &&& Wire.Flags.known = flags.bits) :
    (f.header flags).flags.bits &&& Wire.Flags.known = (f.header flags).flags.bits :=
  Wire.Flags.known_withIf _ (Wire.Flags.known_withIf _ known rfl) rfl

theorem pack_of_fits (fitted : f.Fitted encoder n room) (header : Wire.Header) {payload : Bytes}
    (fits : payload.length ≤ room) :
    ∃ outlet : Outlet, f.pack true header payload = .ok { f with outlet } ∧
      outlet.Packs n header payload ∧
      Fitted encoder n room { f with outlet } := by
  have enough : ¬ f.outlet.buffer.capacity < payload.length := by
    have : f.outlet.buffer.capacity = room := fitted.room
    omega
  have packs : f.outlet.pack true header payload =
      .ok (Wire.Header.size + payload.length, { f.outlet with
        buffer := { f.outlet.buffer with
          store := Bytes.overwrite f.outlet.buffer.store f.outlet.buffer.reserve
            ((header.announcing payload).toBytes ++ payload)
          packed := Wire.Header.size + payload.length } }) := by
    simp only [Outlet.pack, fitted.whole, PackBuffer.pack, if_neg enough]
    rfl
  obtain ⟨reserves, there⟩ := Outlet.pack_ok fitted.reserves packs
  refine ⟨_, ?_, there, fitted.encoder, fitted.whole, reserves, fitted.room⟩
  rw [pack, packs]
  rfl

theorem pack_of_too_large (fitted : f.Fitted encoder n room) (header : Wire.Header)
    {payload : Bytes} (large : room < payload.length) :
    f.pack true header payload = .error (.tooLarge payload.length room) := by
  have capacity : f.outlet.buffer.capacity = room := fitted.room
  have refused : f.outlet.pack true header payload =
      .error (.tooLarge payload.length room) := by
    simp only [Outlet.pack, fitted.whole, PackBuffer.pack, capacity, if_pos large]
    rfl
  rw [pack, refused]
  rfl

theorem encode_cases (fitted : f.Fitted encoder n room) (frame : Picture.Pixels) :
    (∃ failure output, f.encode frame = (.error failure, { f with output }) ∧
        encoder.picture? frame = none) ∨
      ∃ quality picture, f.encode frame = (.ok quality, { f with output := picture }) ∧
        encoder.picture? frame = some picture := by
  unfold encode Picture.Encoder.picture?
  rw [fitted.encoder]
  cases encoder frame.trimmed with
  | error failure => exact Or.inl ⟨failure, [], rfl, rfl⟩
  | ok answer =>
    obtain ⟨quality, picture⟩ := answer
    by_cases empty : picture.isEmpty = true
    · exact Or.inl ⟨.encoding .noOutput, picture, by simp [empty], by simp [empty]⟩
    · exact Or.inr ⟨quality, picture, by simp [empty], by simp [empty]⟩

theorem fitted_delivered (fitted : f.Fitted encoder n room) (d : Delivery) :
    Fitted encoder n room { f with outlet := f.outlet.delivered d } := by
  obtain ⟨encoder, whole, reserves, room⟩ := fitted
  refine ⟨encoder, ?_, Outlet.reserves_delivered reserves d, ?_⟩
  · unfold Outlet.delivered
    cases d.result <;> exact whole
  · unfold Outlet.delivered
    cases d.result <;> exact room

end Feed

namespace Call

/-! ### Section by section -/

theorem advance_done (sink : Sink ω) (now : Int) (k : Nat) (result : Except Failure Outcome)
    (f : Feed) (w : ω) : advance sink now k (.done result) f w = (.done result, f, w) := by
  induction k with
  | zero => rfl
  | succ k ih => exact ih

theorem advance_add (sink : Sink ω) (now : Int) (j k : Nat) (c : Call) (f : Feed) (w : ω) :
    advance sink now (j + k) c f w =
      advance sink now k (advance sink now j c f w).1 (advance sink now j c f w).2.1
        (advance sink now j c f w).2.2 := by
  induction j generalizing c f w with
  | zero => rw [Nat.zero_add]; rfl
  | succ j ih =>
    rw [Nat.succ_add]
    exact ih _ _ _

theorem advance_of_le (sink : Sink ω) (now : Int) {k : Nat} {c : Call} (f : Feed) (w : ω)
    (enough : c.sectionsLeft ≤ k) :
    advance sink now k c f w = advance sink now c.sectionsLeft c f w := by
  obtain ⟨rest, rfl⟩ := Nat.exists_eq_add_of_le enough
  obtain ⟨result, done⟩ := finish_done sink now c f w
  rw [advance_add, done, advance_done, ← done]

theorem finish_step (sink : Sink ω) (now : Int) (c : Call) (f : Feed) (w : ω) :
    c.finish sink now f w =
      (c.step sink now f w).1.finish sink now (c.step sink now f w).2.1
        (c.step sink now f w).2.2 := by
  cases left : c.sectionsLeft with
  | zero =>
    obtain ⟨result, rfl⟩ := eq_done_of_sectionsLeft left
    rfl
  | succ k =>
    have fewer := sectionsLeft_step sink now c f w
    rw [left] at fewer
    have rest := advance_of_le sink now (c.step sink now f w).2.1 (c.step sink now f w).2.2 fewer
    rw [finish, left]
    simp only [advance, Nat.add_one_sub_one] at rest ⊢
    rw [rest]
    rfl

end Call

/-! ### Pictures of document loads -/

/-- Between two moments these pictures of document loads, newest first, became the last picture one
after the other, and those that the wire buffer has room for were handed to the sink. -/
structure Brings (encoder : Picture.Encoder) (reserve room : Nat) (within : ω → Prop)
    (pictures : List Bytes) (f : Feed) (w : ω × Writes) (g : Feed) (v : ω × Writes) : Prop where
  fitted : g.Fitted encoder reserve room
  here : within v.1
  last : g.lastPicture = pictures.head?.or f.lastPicture
  wrote : ∃ writes, v.2 = writes ++ w.2 ∧
    loadPictures reserve writes = pictures.filter (·.length ≤ room)

theorem Brings.none {w : ω × Writes} (fitted : g.Fitted encoder n room) (here : within w.1)
    (last : g.lastPicture = f.lastPicture) : Brings encoder n room within [] f w g w :=
  ⟨fitted, here, last, [], rfl, rfl⟩

theorem Brings.shown {w : ω} {v : ω × Writes} {pictures : List Bytes}
    (brings : Brings encoder n room within pictures f (w, []) g v) :
    loadPictures n v.2 = pictures.filter (·.length ≤ room) := by
  obtain ⟨writes, wrote, pictured⟩ := brings.wrote
  rw [wrote, List.append_nil, pictured]

theorem Brings.trans {h : Feed} {w v u : ω × Writes} {pictures more : List Bytes}
    (first : Brings encoder n room within pictures f w g v)
    (second : Brings encoder n room within more g v h u) :
    Brings encoder n room within (more ++ pictures) f w h u := by
  obtain ⟨writes, wrote, shown⟩ := first.wrote
  obtain ⟨later, wrote_later, shown_later⟩ := second.wrote
  refine ⟨second.fitted, second.here, ?_, later ++ writes, ?_, ?_⟩
  · rw [second.last, first.last, List.head?_append, Option.or_assoc]
  · rw [wrote_later, wrote, List.append_assoc]
  · rw [loadPictures_append, shown, shown_later, List.filter_append]

namespace Call

theorem finish_write (sink : Sink ω) (now : Int) (purpose : Purpose) {f : Feed} {wire : Bytes}
    (there : f.outlet.wire? = .ok wire) {w : ω × Writes} {count : Nat}
    (taken : (sink.write wire w.1).1.result = .ok count) :
    (write purpose).finish sink.watched now f w =
      (.ok (outcome purpose count),
        recorded purpose now count
          { f with outlet := f.outlet.delivered (sink.write wire w.1).1 },
        (sink.write wire w.1).2, (wire, .ok count) :: w.2) := by
  rw [finish_step]
  simp only [step, Feed.write, Outlet.deliver, there, Sink.watched, taken]
  rfl

structure Packed (encoder : Picture.Encoder) (reserve room : Nat) (within : ω → Prop)
    (purpose : Purpose) (flags : Wire.Flags) (payload : Bytes) (f : Feed) (w : ω × Writes)
    (out : Except Failure Outcome × Feed × ω × Writes) : Prop where
  fitted : out.2.1.Fitted encoder reserve room
  here : within out.2.2.1
  last : out.2.1.lastPicture = f.lastPicture
  load : out.2.1.load = f.load
  wrote : ∃ writes, out.2.2.2 = writes ++ w.2 ∧ loadPictures reserve writes =
    (if flags.includes .loadDoc then [payload] else []).filter (·.length ≤ room)
  done : payload.length ≤ room → ∃ count, out.1 = .ok (outcome purpose count)
  failed : room < payload.length → out.1 = .error (.tooLarge payload.length room)

theorem finish_packed (serves : sink.Serves within) (now : Int) (purpose : Purpose)
    (flags : Wire.Flags) (known : flags.bits &&& Wire.Flags.known = flags.bits) (payload : Bytes)
    (fitted : f.Fitted encoder n room) {w : ω × Writes} (here : within w.1) :
    Packed encoder n room within purpose flags payload f w
      ((packed purpose f (f.pack true (f.header flags) payload)).1.finish sink.watched now
        (packed purpose f (f.pack true (f.header flags) payload)).2 w) := by
  -- What has no room is refused before anything is written.
  by_cases fits : payload.length ≤ room
  · obtain ⟨outlet, packs, ⟨reserved, count, there⟩, ready⟩ :=
      Feed.pack_of_fits fitted (f.header flags) fits
    obtain ⟨bytes, taken⟩ := serves.takes _ w.1 here
    rw [packs]
    simp only [packed]
    rw [finish_write sink now purpose there taken]
    obtain ⟨outlet_kept, -, last, -⟩ := recorded_keeps purpose now bytes
      { f with outlet := outlet.delivered (sink.write _ w.1).1 }
    refine ⟨(Feed.fitted_delivered ready _).of_eq ?_ outlet_kept, serves.wrote _ w.1 here, last, ?_,
      ⟨[_], rfl, ?_⟩,
      fun _ => ⟨bytes, rfl⟩, fun large => absurd fits (Nat.not_le.mpr large)⟩
    · cases purpose <;> rfl
    · cases purpose <;> rfl
    · have shown := loadPicture?_of_layout reserved payload (f.known_header known)
      rw [count, Feed.includes_header f flags .loadDoc rfl rfl] at shown
      rw [loadPictures, List.filterMap_cons, shown]
      cases flags.includes .loadDoc <;> simp [fits]
  · have large : room < payload.length := Nat.lt_of_not_le fits
    rw [Feed.pack_of_too_large fitted (f.header flags) large]
    refine ⟨fitted, here, rfl, rfl, ⟨[], rfl, ?_⟩, fun small => absurd small fits,
      fun _ => rfl⟩
    cases flags.includes .loadDoc <;> simp [loadPictures, fits]

theorem finish_repack (serves : sink.Serves within) (now : Int) (fitted : f.Fitted encoder n room)
    {w : ω × Writes} (here : within w.1) :
    Brings encoder n room within [] f w (repack.finish sink.watched now f w).2.1
        (repack.finish sink.watched now f w).2.2 ∧
      (repack.finish sink.watched now f w).2.1.load = f.load := by
  rw [finish_step]
  cases last : f.lastPicture with
  | none =>
    simp only [step, last, Feed.packLast]
    exact ⟨.none fitted here rfl, rfl⟩
  | some picture =>
    have sent := finish_packed serves now .resend .resend rfl picture fitted
      (w := ((sink.isReady w.1).2, w.2)) (serves.asked w.1 here)
    simp only [step, last, Feed.packLast, Option.isSome_some, if_true, Sink.watched,
      serves.ready w.1 here]
    exact ⟨⟨sent.fitted, sent.here, sent.last, sent.wrote⟩, sent.load⟩

theorem finish_heartbeat (serves : sink.Serves within) (now : Int)
    (fitted : f.Fitted encoder n room) {w : ω × Writes} (here : within w.1) :
    Brings encoder n room within [] f w (heartbeat.finish sink.watched now f w).2.1
        (heartbeat.finish sink.watched now f w).2.2 ∧
      (heartbeat.finish sink.watched now f w).2.1.load = f.load := by
  have sent := finish_packed serves now .heartbeat .empty rfl [] fitted
    (w := ((sink.isReady w.1).2, w.2)) (serves.asked w.1 here)
  have made : heartbeat.finish sink.watched now f w =
      (packHeartbeat (f.header .empty)).finish sink.watched now f w := finish_step ..
  rw [made, finish_step]
  simp only [step, Sink.watched, serves.ready w.1 here]
  exact ⟨⟨sent.fitted, sent.here, sent.last, sent.wrote⟩, sent.load⟩

theorem finish_publish (serves : sink.Serves within) (now : Int) {job : Job}
    (flags : job.flags = .loadDoc) (quality : UInt8) (fitted : f.Fitted encoder n room)
    {w : ω × Writes} (here : within w.1) :
    Brings encoder n room within [f.output] f w
        ((publish job quality).finish sink.watched now f w).2.1
        ((publish job quality).finish sink.watched now f w).2.2 ∧
      ((publish job quality).finish sink.watched now f w).2.1.load = f.load ∧
      (f.output.length ≤ room → ∃ count, ((publish job quality).finish sink.watched now f w).1 =
          .ok (outcome (.picture job quality) count)) ∧
      (room < f.output.length → ∃ failure,
        ((publish job quality).finish sink.watched now f w).1 = .error failure) := by
  have sent := finish_packed serves now (.picture job quality) .loadDoc rfl f.output
    (f := f.publish job.admitted) (fitted.of_eq rfl rfl) (w := ((sink.isReady w.1).2, w.2))
    (serves.asked w.1 here)
  rw [finish_step]
  simp only [step, Sink.watched, serves.ready w.1 here, flags]
  exact ⟨⟨sent.fitted, sent.here, sent.last, sent.wrote⟩, sent.load, sent.done,
    fun large => ⟨_, sent.failed large⟩⟩

theorem finish_encode (serves : sink.Serves within) (now : Int) (job : Job)
    (route : job.route = .load ∨ job.route = .replay) (fitted : f.Fitted encoder n room)
    {w : ω × Writes} (here : within w.1) :
    Brings encoder n room within (encoder.picture? job.frame).toList f w
        ((encode job).finish sink.watched now f w).2.1
        ((encode job).finish sink.watched now f w).2.2 ∧
      ((encode job).finish sink.watched now f w).2.1.load = f.load ∧
      (if (encoder.picture? job.frame).any (·.length ≤ room) then ∃ quality count,
          ((encode job).finish sink.watched now f w).1 = .ok (outcome (.picture job quality) count)
        else ∃ failure, ((encode job).finish sink.watched now f w).1 = .error failure) := by
  have flags : job.flags = .loadDoc := by
    rcases route with route | route <;> simp [Job.flags, route]
  -- Neither of the two routes gives a slot back, and both claim one before they publish.
  have failed (failure : Failure) : encoded job (.error failure) = .done (.error failure) := by
    rcases route with route | route <;> simp [encoded, route]
  have made (quality : UInt8) : encoded job (.ok quality) = .accept job quality := by
    rcases route with route | route <;> simp [encoded, route]
  rw [finish_step]
  simp only [step]
  rcases Feed.encode_cases fitted job.frame with
    ⟨failure, output, answer, unmade⟩ | ⟨quality, picture, answer, picture_made⟩
  · rw [answer, unmade, failed]
    exact ⟨.none (fitted.of_eq rfl rfl) here rfl, rfl, failure, rfl⟩
  · rw [answer, picture_made, made, finish_step]
    obtain ⟨brings, load, done, refused⟩ := finish_publish serves now
      (f := Feed.acceptLoad { f with output := picture } job.admitted) flags quality
      (fitted.of_eq rfl rfl) here
    refine ⟨⟨brings.fitted, brings.here, brings.last, brings.wrote⟩, load, ?_⟩
    by_cases fits : picture.length ≤ room
    · simp only [Option.any_some, fits, decide_true, if_true]
      exact ⟨quality, done fits⟩
    · simp only [Option.any_some, fits, decide_false]
      exact refused (Nat.lt_of_not_le fits)

end Call

/-! ### Whole operations -/

def Load.straight? (encoder : Picture.Encoder) (l : Load) (pixels : Picture.Pixels) :
    Option Bytes :=
  if l.verdict? pixels = some .admitted then encoder.picture? pixels else none

namespace Feed

theorem admitLoad_keeps (f : Feed) (pixels : Picture.Pixels) :
    (f.admitLoad pixels).2.encoder = f.encoder ∧ (f.admitLoad pixels).2.outlet = f.outlet ∧
      (f.admitLoad pixels).2.lastPicture = f.lastPicture := by
  obtain ⟨_, same⟩ := f.admitLoad_feed pixels
  rw [same]
  exact ⟨rfl, rfl, rfl⟩

/-- A load frame brings its picture if it is let in. It is answered as held back or as sent exactly
if it is held back, or is let in and its picture has room. -/
theorem offerLoad_brings (serves : sink.Serves within) (now : Int) (pixels : Picture.Pixels)
    (fitted : f.Fitted encoder n room) {w : ω × Writes} (here : within w.1) :
    let after := f.offerLoad sink.watched now pixels w
    Brings encoder n room within (f.load.straight? encoder pixels).toList f w after.2.1 after.2.2 ∧
      after.2.1.load = f.load.offer pixels ∧
      (after.1 = .ok .cached ↔ f.load.verdict? pixels = some .cached) ∧
      ((∃ bytes quality, after.1 = .ok (.sent bytes quality)) ↔
        (f.load.straight? encoder pixels).any (·.length ≤ room)) := by
  intro after
  cases valid : pixels.check with
  | error failure =>
    have refused : f.load.verdict? pixels = none := by simp [Load.verdict?, valid]
    have answer : after = (.error failure, f, w) := by
      simp only [after, offerLoad, Call.loadFrame, valid]
      rfl
    rw [answer, Load.straight?, Load.offer, refused]
    exact ⟨.none fitted here rfl, rfl, by simp, by simp⟩
  | ok _ =>
    obtain ⟨verdict, load⟩ := f.admitLoad_eq valid
    obtain ⟨same, outlet, last⟩ := f.admitLoad_keeps pixels
    have ready : (f.admitLoad pixels).2.Fitted encoder n room := fitted.of_eq same outlet
    cases admitted : f.admitLoad pixels with
    | mk admission g =>
    rw [admitted] at verdict load last ready
    rw [Load.straight?, verdict, ← load]
    cases admission with
    | stale =>
      have answer : after = (.ok .stale, g, w) := by
        simp only [after, offerLoad, Call.loadFrame, valid, admitted]
        rfl
      rw [answer]
      exact ⟨.none ready here last, rfl, by simp, by simp⟩
    | cached =>
      have answer : after = (.ok .cached, g, w) := by
        simp only [after, offerLoad, Call.loadFrame, valid, admitted]
        rfl
      rw [answer]
      exact ⟨.none ready here last, rfl, by simp, by simp⟩
    | admitted =>
      obtain ⟨brings, kept, answer⟩ := Call.finish_encode serves now ⟨pixels, now, .load⟩
        (Or.inl rfl) ready here
      have finished : after = (Call.encode ⟨pixels, now, .load⟩).finish sink.watched now g w := by
        simp only [after, offerLoad, Call.loadFrame, valid, admitted]
      rw [← finished] at brings kept answer
      rw [if_pos rfl]
      have last_kept := brings.last
      rw [last] at last_kept
      refine ⟨⟨brings.fitted, brings.here, last_kept, brings.wrote⟩, kept, ?_⟩
      by_cases sends : (encoder.picture? pixels).any (·.length ≤ room) = true
      · obtain ⟨quality, count, sent⟩ := (if_pos sends).mp answer
        rw [sent]
        simp [Call.outcome, sends]
      · obtain ⟨failure, failed⟩ := (if_neg sends).mp answer
        rw [failed]
        simp [sends]

theorem carryOut_replay (serves : sink.Serves within) (now : Int) {held : Upkeep.HeldFrame}
    (valid : (Call.heldPixels held).check = .ok ()) (fitted : f.Fitted encoder n room)
    {w : ω × Writes} (here : within w.1) :
    Brings encoder n room within (encoder.picture? (Call.heldPixels held)).toList f w
        (f.carryOut sink.watched now (.replay held) w).2.1
        (f.carryOut sink.watched now (.replay held) w).2.2 ∧
      (f.carryOut sink.watched now (.replay held) w).2.1.load = f.load := by
  simp only [carryOut, Call.intent, valid]
  have encodes := Call.finish_encode serves now ⟨Call.heldPixels held, now, .replay⟩
    (Or.inr rfl) fitted here
  exact ⟨encodes.1, encodes.2.1⟩

theorem carryOutAll_others (serves : sink.Serves within) (now : Int)
    {intents : List Upkeep.Intent} (others : ∀ held, .replay held ∉ intents)
    (fitted : f.Fitted encoder n room) {w : ω × Writes} (here : within w.1) :
    Brings encoder n room within [] f w (f.carryOutAll sink.watched now intents w).2.1
        (f.carryOutAll sink.watched now intents w).2.2 ∧
      (f.carryOutAll sink.watched now intents w).2.1.load = f.load := by
  induction intents generalizing f w with
  | nil => exact ⟨.none fitted here rfl, rfl⟩
  | cons intent rest ih =>
    -- What is left of the plan repeats a picture or sends none.
    have first : Brings encoder n room within [] f w (f.carryOut sink.watched now intent w).2.1
        (f.carryOut sink.watched now intent w).2.2 ∧
        (f.carryOut sink.watched now intent w).2.1.load = f.load := by
      cases intent with
      | replay held => exact absurd List.mem_cons_self (others held)
      | resend => exact Call.finish_repack serves now fitted here
      | heartbeat => exact Call.finish_heartbeat serves now fitted here
    obtain ⟨later, load⟩ := ih (fun held member => others held (List.mem_cons_of_mem _ member))
      first.1.fitted first.1.here
    exact ⟨first.1.trans later, load.trans first.2⟩

theorem tick_brings (serves : sink.Serves within) (now : Int) (fitted : f.Fitted encoder n room)
    (valid : ∀ held ∈ f.load.replay?, (Call.heldPixels held).check = .ok ()) {w : ω × Writes}
    (here : within w.1) :
    let after := (f.tick now).2.carryOutAll sink.watched now (f.tick now).1 w
    Brings encoder n room within
        (f.load.replay?.bind fun held => encoder.picture? (Call.heldPixels held)).toList f w
        after.2.1 after.2.2 ∧
      after.2.1.load = f.load.tick := by
  obtain ⟨others, planned, no_replay⟩ := f.upkeep.plan_eq now f.lastPicture.isSome
  have load : (f.tick now).2.load = f.load.tick := f.upkeep.load_plan now f.lastPicture.isSome
  have ticked : (f.tick now).2.Fitted encoder n room := fitted.of_eq rfl rfl
  rw [show (f.tick now).1 = f.load.replay?.toList.map .replay ++ others from planned]
  cases due : f.load.replay? with
  | none =>
    obtain ⟨brings, kept⟩ := carryOutAll_others serves now no_replay ticked here
    exact ⟨⟨brings.fitted, brings.here, brings.last, brings.wrote⟩, kept.trans load⟩
  | some held =>
    obtain ⟨replayed, kept⟩ := carryOut_replay serves now (valid held due) ticked here
    obtain ⟨rest, rest_kept⟩ := carryOutAll_others serves now no_replay replayed.fitted
      replayed.here
    have brings := replayed.trans rest
    exact ⟨⟨brings.fitted, brings.here, brings.last, brings.wrote⟩,
      rest_kept.trans (kept.trans load)⟩

end Feed

end Stream

end ScreenPreview
