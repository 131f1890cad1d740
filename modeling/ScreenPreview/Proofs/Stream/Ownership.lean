import ScreenPreview.Proofs.Stream.Locks

/-!
What the calls of a pool own.

All calls share three buffers: the output of the encoder, the last picture and the wire buffer. A
call finds in them what it put there itself: in the output of the encoder until its picture is
packed, and in the wire buffer until its write (`Along`). The locks it holds keep the others out.
-/
namespace ScreenPreview.Stream

open Event (requests encodings writes)

inductive Suits : Request → Purpose → Prop
  | picture {request : Request} {job : Job} (serves : request.Serves job) (quality : UInt8) :
    Suits request (.picture job quality)
  | resend : Suits (.intent .resend) .resend
  | heartbeat : Suits (.intent .heartbeat) .heartbeat

def Carries (f : Feed) (trail : List Event) (header : Wire.Header) (payload : Bytes) :
    Purpose → Prop
  | .picture job quality =>
    header.flags.includes .resend = false ∧ header.flags.includes .empty = false ∧
      encodings trail = [(job.frame.trimmed, .ok (quality, payload))]
  | .resend =>
    header.flags.includes .resend = true ∧ header.flags.includes .empty = false ∧
      f.lastPicture = some payload
  | .heartbeat =>
    header.flags.includes .resend = false ∧ header.flags.includes .empty = true ∧ payload = []

/-- The encoder, not the outlet, reported that nothing was packed. -/
def Excused (trail : List Event) (failure : Failure) : Prop :=
  failure = .nothingPacked → ∃ given, (given, .error .nothingPacked) ∈ encodings trail

/-- The result of a call agrees with what it wrote. -/
inductive Settled (request : Request) (trail : List Event) : Except Failure Outcome → Prop
  | unwritten {outcome : Outcome} (none : writes trail = [])
    (unsent : ∀ bytes quality, outcome ≠ .sent bytes quality)
    (unwritten : ∀ bytes, outcome ≠ .written bytes) : Settled request trail (.ok outcome)
  | failed {failure : Failure} (none : writes trail = []) (excused : Excused trail failure) :
    Settled request trail (.error failure)
  | broke {wire : Bytes} {failure : Failure} (one : writes trail = [(wire, .error failure)]) :
    Settled request trail (.error failure)
  | wrote {purpose : Purpose} {wire : Bytes} {bytes : Nat} (suits : Suits request purpose)
    (one : writes trail = [(wire, .ok bytes)]) :
    Settled request trail (.ok (Call.outcome purpose bytes))

def Failed (trail : List Event) : Prop :=
  ∀ given quality picture, (given, .ok (quality, picture)) ∈ encodings trail → picture = []

/-- What a call owns and has done, by what it does next. -/
def Stage (reserve : Nat) (f : Feed) (request : Request) (trail : List Event) : Call → Prop
  | .encode job => request.Serves job ∧ encodings trail = [] ∧ writes trail = []
  | .release _ _ failure => Failed trail ∧ Excused trail failure ∧ writes trail = []
  | .accept job quality =>
    request.Serves job ∧ encodings trail = [(job.frame.trimmed, .ok (quality, f.output))] ∧
      writes trail = []
  | .publish job quality =>
    request.Serves job ∧ encodings trail = [(job.frame.trimmed, .ok (quality, f.output))] ∧
      writes trail = []
  | .repack => request = .intent .resend ∧ writes trail = []
  | .heartbeat => request = .intent .heartbeat ∧ writes trail = []
  | .packHeartbeat header => request = .intent .heartbeat ∧ writes trail = [] ∧
    ∃ made : Feed, header = made.header .empty
  | .write purpose => Suits request purpose ∧ writes trail = [] ∧
    ∃ header payload, f.outlet.Packs reserve header payload ∧ Carries f trail header payload purpose
  | .record purpose bytes => Suits request purpose ∧ ∃ wire, writes trail = [(wire, .ok bytes)]
  | .resize _ => writes trail = []
  | .done result => Settled request trail result

def Along (reserve : Nat) (f : Feed) (trail : List Event) (c : Call) : Prop :=
  ∃ request, requests trail = [request] ∧ Stage reserve f request trail c

variable {ω : Type} {sink : Sink ω} {n : Nat} {f g : Feed} {c d : Call} {trail events : List Event}
  {request : Request}

/-! ### The calls themselves -/

theorem settled_of_quiet {result : Except Failure Outcome} (none : writes trail = [])
    (quiet : Request.Quiet result) : Settled request trail result := by
  cases result with
  | ok outcome =>
    refine .unwritten none ?_ ?_
    · rintro bytes quality rfl
      exact quiet.unsent bytes quality rfl
    · rintro bytes rfl
      exact quiet.unwritten bytes rfl
  | error failure =>
    refine .failed none ?_
    rintro rfl
    exact absurd rfl quiet.excused

theorem stage_opens (opens : request.Opens c) (trail : List Event) (fresh : encodings trail = [])
    (none : writes trail = []) : Stage n f request trail c := by
  cases opens with
  | encode serves => exact ⟨serves, fresh, none⟩
  | repack => exact ⟨rfl, none⟩
  | heartbeat => exact ⟨rfl, none⟩
  | resize capacity => exact none
  | done _ quiet => exact settled_of_quiet none quiet

theorem stage_encode {job : Job} (stage : Stage n f request trail (.encode job)) :
    Stage n (f.encode job.frame).2 request
      (.encoded job.frame.trimmed (f.encoder job.frame.trimmed) :: trail)
      (.encoded job (f.encode job.frame).1) := by
  obtain ⟨serves, fresh, none⟩ := stage
  have refused (failure : Failure) (answer : Except Failure (UInt8 × Bytes)) (h : Feed)
      (excused : failure = .nothingPacked → answer = .error .nothingPacked)
      (empty : ∀ made, answer = .ok made → made.2 = []) :
      Stage n h request (.encoded job.frame.trimmed answer :: trail)
        (.encoded job (.error failure)) := by
    have failed : Failed (.encoded job.frame.trimmed answer :: trail) := by
      intro given quality picture member
      have only : encodings (.encoded job.frame.trimmed answer :: trail) =
          [(job.frame.trimmed, answer)] := congrArg (_ :: ·) fresh
      rw [only, List.mem_singleton, Prod.mk.injEq] at member
      exact empty (quality, picture) member.2.symm
    have excused : Excused (.encoded job.frame.trimmed answer :: trail) failure := by
      rintro rfl
      exact ⟨job.frame.trimmed, by simp [encodings, excused rfl]⟩
    unfold Call.encoded
    cases job.route with
    | live previous => exact ⟨failed, excused, none⟩
    | load => exact .failed none excused
    | replay => exact .failed none excused
  unfold Feed.encode
  cases f.encoder job.frame.trimmed with
  | error failure => exact refused failure _ _ (fun same => by rw [same]) (by simp)
  | ok made =>
    by_cases nothing : made.2.isEmpty = true
    · simp only [nothing, if_true]
      refine refused _ _ _ (by simp) ?_
      rintro _ ⟨⟩
      exact List.isEmpty_iff.mp nothing
    · simp only [nothing]
      have made : encodings (.encoded job.frame.trimmed (.ok made) :: trail) =
          [(job.frame.trimmed, .ok (made.1, made.2))] := congrArg (_ :: ·) fresh
      unfold Call.encoded
      cases route : job.route with
      | live previous => exact ⟨serves, made, none⟩
      | load => exact ⟨serves, made, none⟩
      | replay => exact ⟨serves, made, none⟩

theorem flags_of_job (job : Job) :
    job.flags.includes .resend = false ∧ job.flags.includes .empty = false := by
  unfold Job.flags
  split <;> decide

theorem stage_packed {h : Feed} {purpose : Purpose} {ready : Bool} {header : Wire.Header}
    {payload : Bytes} (stage : Stage n f request trail c) (kept : f.outlet.buffer.Reserves n)
    (packing : Call.Packing c f events g purpose header payload)
    (packs : g.pack ready header payload = .ok h) :
    Stage n h request (events ++ trail) (.write purpose) := by
  obtain ⟨length, outlet, packed, rfl⟩ := Feed.pack_ok packs
  rw [← packing.keeps.1] at kept
  obtain ⟨-, there⟩ := Outlet.pack_ok kept packed
  have resend (made : Feed) (flags : Wire.Flags) :
      (made.header flags).flags.includes .resend = flags.includes .resend :=
    made.includes_header flags .resend (by decide) (by decide)
  have empty (made : Feed) (flags : Wire.Flags) :
      (made.header flags).flags.includes .empty = flags.includes .empty :=
    made.includes_header flags .empty (by decide) (by decide)
  cases packing with
  | publish job quality =>
    obtain ⟨serves, made, none⟩ := stage
    refine ⟨.picture serves quality, none, _, _, there, ?_, ?_, made⟩
    · exact (resend f job.flags).trans (flags_of_job job).1
    · exact (empty f job.flags).trans (flags_of_job job).2
  | repack last =>
    obtain ⟨rfl, none⟩ := stage
    exact ⟨.resend, none, _, _, there, resend f .resend, empty f .resend, last⟩
  | heartbeat header f =>
    obtain ⟨rfl, none, made, rfl⟩ := stage
    exact ⟨.heartbeat, none, _, _, there, resend made .empty, empty made .empty, rfl⟩

theorem stage_unpacked {purpose : Purpose} {ready : Bool} {header : Wire.Header}
    {payload : Bytes} {failure : Failure} (stage : Stage n f request trail c)
    (packing : Call.Packing c f events g purpose header payload)
    (refused : g.pack ready header payload = .error failure) :
    Stage n g request (events ++ trail) (.done (.error failure)) := by
  have none : writes (events ++ trail) = [] := by
    cases packing with
    | publish => exact stage.2.2
    | repack => exact stage.2
    | heartbeat => exact stage.2.1
  exact .failed none fun same => absurd same (Feed.pack_error refused)

theorem stage_section (stage : Stage n f request trail c) (kept : f.outlet.buffer.Reserves n)
    (taken : Call.Section sink c f events d g) : Stage n g request (events ++ trail) d := by
  cases taken with
  | encode job => exact stage_encode stage
  | release => exact .failed stage.2.2 stage.2.1
  | accept => exact stage
  | heartbeat => exact ⟨stage.1, stage.2, f, rfl⟩
  | packed packing packs => exact stage_packed stage kept packing packs
  | unpacked packing refused => exact stage_unpacked stage packing refused
  | noPicture => exact .failed stage.2 (by simp [Excused])
  | wrote purpose => exact ⟨stage.1, _, congrArg (_ :: ·) stage.2.1⟩
  | broke purpose => exact .broke (congrArg (_ :: ·) stage.2.1)
  | nothing purpose missing =>
    obtain ⟨-, -, header, payload, ⟨reserved, -, there⟩, -⟩ := stage
    rw [missing] at there
    cases there
  | record purpose now bytes =>
    obtain ⟨suits, wire, one⟩ := stage
    exact .wrote suits one
  | resize => exact .unwritten stage (by simp) (by simp)
  | done => exact stage

theorem Along.section (along : Along n f trail c) (kept : f.outlet.buffer.Reserves n)
    (taken : Call.Section sink c f events d g) : Along n g (events ++ trail) d := by
  obtain ⟨request, asked, stage⟩ := along
  refine ⟨request, ?_, stage_section stage kept taken⟩
  rw [Event.requests_append, taken.requests_eq, List.nil_append, asked]

/-- A call does not see what changes beyond its locks. -/
theorem Along.frame (along : Along n f trail c)
    (output : .encoder ∈ c.holds → g.output = f.output)
    (outlet : .outlet ∈ c.holds → g.outlet = f.outlet ∧ g.lastPicture = f.lastPicture) :
    Along n g trail c := by
  obtain ⟨request, asked, stage⟩ := along
  refine ⟨request, asked, ?_⟩
  cases c with
  | accept job quality =>
    rw [Stage, output (by simp [Call.holds])]
    exact stage
  | publish job quality =>
    rw [Stage, output (by simp [Call.holds])]
    exact stage
  | write purpose =>
    obtain ⟨same, last⟩ := outlet (by cases purpose <;> simp [Call.holds])
    obtain ⟨suits, none, header, payload, there, carries⟩ := stage
    refine ⟨suits, none, header, payload, by rwa [same], ?_⟩
    cases purpose with
    | resend => exact ⟨carries.1, carries.2.1, last.trans carries.2.2⟩
    | _ => exact carries
  | _ => exact stage

/-! ### The shared buffers -/

theorem reserves_section (kept : f.outlet.buffer.Reserves n)
    (taken : Call.Section sink c f events d g) : g.outlet.buffer.Reserves n := by
  cases taken with
  | encode job =>
    unfold Feed.encode
    split <;> exact kept
  | packed packing packs =>
    obtain ⟨length, outlet, packed, rfl⟩ := Feed.pack_ok packs
    rw [← packing.keeps.1] at kept
    exact (Outlet.pack_ok kept packed).1
  | unpacked packing =>
    rw [packing.keeps.1]
    exact kept
  | wrote => exact Outlet.reserves_delivered kept _
  | broke => exact Outlet.reserves_delivered kept _
  | record purpose now bytes =>
    rw [(Call.recorded_keeps purpose now bytes f).1]
    exact kept
  | resize capacity => exact kept.resize capacity
  | _ => exact kept

theorem latest_section {number : Nat} {log : Log} (last : f.lastPicture = log.latest)
    (taken : Call.Section sink c f events d g) :
    g.lastPicture = Log.latest (events.map (number, ·) ++ log) := by
  cases taken with
  | encode job =>
    unfold Feed.encode
    split <;> exact last
  | packed packing packs =>
    obtain ⟨length, outlet, packed, rfl⟩ := Feed.pack_ok packs
    cases packing with
    | publish => rfl
    | repack => exact last
    | heartbeat => exact last
  | unpacked packing =>
    cases packing with
    | publish => rfl
    | repack => exact last
    | heartbeat => exact last
  | record purpose now bytes => exact (Call.recorded_keeps purpose now bytes f).2.2.1.trans last
  | _ => exact last

end ScreenPreview.Stream
