import ScreenPreview.Proofs.Stream.WireContents

/-!
What the events of a call say about what was asked of it.

A viewer tells a repetition and a heartbeat from other frames by their flags. However calls are
interleaved, a frame carries such a flag exactly if its call was asked for it, and neither of the
two makes a last picture (`fits_run`).
-/
namespace ScreenPreview.Stream

open Event (requests)

/-- The frame behind the reserved bytes carries the flags. The flag byte ends its header. -/
def flagged (reserve : Nat) (flags : Wire.Flags) (wire : Bytes) : Bool :=
  (wire.drop reserve)[Wire.Header.size - 1]?.any fun bits => (Wire.Flags.mk bits).includes flags

theorem flagged_of_layout (reserved payload : Bytes) (header : Wire.Header) (flags : Wire.Flags) :
    flagged reserved.length flags (reserved ++ header.toBytes ++ payload) =
      header.flags.includes flags := by
  rw [flagged, List.append_assoc, List.drop_left]
  simp [Wire.Header.toBytes, Wire.Header.size, Bytes.ofWord]

def Event.Fits (reserve : Nat) (request : Request) : Event → Prop
  | .wrote wire _ =>
    (flagged reserve .empty wire = true ↔ request = .intent .heartbeat) ∧
      (flagged reserve .resend wire = true ↔ request = .intent .resend)
  | .published _ => request ≠ .intent .heartbeat ∧ request ≠ .intent .resend
  | _ => True

def Log.Fits (reserve : Nat) (log : Log) : Prop :=
  ∀ number event, (number, event) ∈ log →
    ∃ request, requests (log.own number) = [request] ∧ event.Fits reserve request

namespace Log

variable {reserve number : Nat} {log : Log}

theorem mem_own {event : Event} : event ∈ log.own number ↔ (number, event) ∈ log := by
  constructor
  · intro member
    obtain ⟨⟨actor, other⟩, inside, same⟩ := List.mem_filterMap.mp member
    split at same
    · rename_i own
      cases same
      cases own
      exact inside
    · cases same
  · intro member
    exact List.mem_filterMap.mpr ⟨_, member, if_pos rfl⟩

theorem Fits.requests_eq (fits : log.Fits reserve) {request : Request}
    (asked : (number, .asked request) ∈ log) : requests (log.own number) = [request] := by
  obtain ⟨only, same, -⟩ := fits number _ asked
  have member : request ∈ requests (log.own number) := mem_requests.mpr (mem_own.mpr asked)
  rw [same, List.mem_singleton] at member
  rw [same, member]

theorem Fits.event (fits : log.Fits reserve) {request : Request} {event : Event}
    (asked : requests (log.own number) = [request]) (member : (number, event) ∈ log) :
    event.Fits reserve request := by
  obtain ⟨only, same, fit⟩ := fits number event member
  rw [asked] at same
  rwa [List.singleton_inj.mp same]

end Log

variable {ω : Type} {sink : Sink ω} {n : Nat} {f g : Feed} {c d : Call} {events : List Event}

theorem Request.Serves.ne_intent {request : Request} {job : Job} (serves : request.Serves job) :
    request ≠ .intent .heartbeat ∧ request ≠ .intent .resend := by
  cases serves <;> exact ⟨by simp, by simp⟩

theorem Along.flagged_iff {trail : List Event} {purpose : Purpose}
    (along : Along n f trail (.write purpose)) {wire : Bytes} (there : f.outlet.wire? = .ok wire) :
    ∃ request, requests trail = [request] ∧
      (flagged n .empty wire = true ↔ request = .intent .heartbeat) ∧
      (flagged n .resend wire = true ↔ request = .intent .resend) := by
  obtain ⟨request, asked, suits, -, header, payload, ⟨reserved, rfl, packed⟩, carries⟩ := along
  rw [there, Except.ok.injEq] at packed
  refine ⟨request, asked, ?_⟩
  have flags : (header.announcing payload).flags = header.flags := rfl
  rw [packed, flagged_of_layout, flagged_of_layout, flags]
  cases suits with
  | picture serves quality =>
    obtain ⟨not_heartbeat, not_resend⟩ := serves.ne_intent
    obtain ⟨resend, empty, -⟩ := carries
    simp [resend, empty, not_heartbeat, not_resend]
  | resend =>
    obtain ⟨resend, empty, -⟩ := carries
    simp [resend, empty]
  | heartbeat =>
    obtain ⟨resend, empty, -⟩ := carries
    simp [resend, empty]

theorem Call.Section.of_published (taken : Section sink c f events d g) {picture : Bytes}
    (published : .published picture ∈ events) :
    ∃ job quality, c = .publish job quality ∧ events = [.published picture] := by
  cases taken with
  | packed packing =>
    cases packing with
    | publish job quality =>
      rw [List.mem_singleton.mp published]
      exact ⟨job, quality, rfl, rfl⟩
    | _ => cases published
  | unpacked packing =>
    cases packing with
    | publish job quality =>
      rw [List.mem_singleton.mp published]
      exact ⟨job, quality, rfl, rfl⟩
    | _ => cases published
  | _ => simp at published

theorem fits_section {trail : List Event} (along : Along n f trail c)
    (taken : Call.Section sink c f events d g) {event : Event} (member : event ∈ events) :
    ∃ request, requests trail = [request] ∧ event.Fits n request := by
  cases event with
  | wrote wire result =>
    obtain ⟨purpose, -, rfl, there, -⟩ := taken.of_wrote member
    exact along.flagged_iff there
  | published picture =>
    obtain ⟨job, quality, rfl, -⟩ := taken.of_published member
    obtain ⟨request, asked, serves, -⟩ := along
    exact ⟨request, asked, serves.ne_intent⟩
  | _ =>
    obtain ⟨request, asked, -⟩ := along
    exact ⟨request, asked, trivial⟩

namespace Pool

variable {p : Pool ω}

theorem fits_start (sound : p.Sound sink n) (fits : p.log.Fits n) (now : Int) (request : Request) :
    (p.step sink (.start now request)).log.Fits n := by
  rw [step_start]
  intro number event member
  rw [Log.own_append]
  rcases List.mem_append.mp member with fresh | member
  · obtain ⟨event, among, same⟩ := List.mem_map.mp fresh
    obtain ⟨rfl, rfl⟩ := Prod.mk.inj same
    have new : p.log.own p.calls.length = [] :=
      Log.own_of_others fun entry member => Nat.ne_of_lt (sound.numbers entry member)
    rw [Log.own_of_own, new, List.append_nil]
    refine ⟨request, (trail_start _ request).1, ?_⟩
    cases event with
    | wrote wire result => exact absurd fresh wrote_not_mem_start
    | published picture =>
      unfold Call.claims at among
      split at among <;> simp at among
    | _ => trivial
  · have before := sound.numbers _ member
    rw [Log.own_of_other (Nat.ne_of_lt before)]
    exact fits number event member

theorem fits_step (sound : p.Sound sink n) (fits : p.log.Fits n) (move : Move ω) :
    (p.step sink move).log.Fits n := by
  cases move with
  | start now request => exact fits_start sound fits now request
  | advance now number =>
    rcases p.step_advance sink now number with
      same | ⟨c, d, events, feed, world, made, free, taken, step⟩
    · rwa [same]
    rw [step]
    intro actor event member
    have silent : requests (Log.own actor (events.map (number, ·))) = [] := by
      by_cases own : actor = number
      · rw [own, Log.own_of_own]
        exact taken.requests_eq
      · rw [Log.own_of_other own]
        rfl
    rw [Log.own_append, Event.requests_append, silent, List.nil_append]
    rcases List.mem_append.mp member with fresh | member
    · obtain ⟨event, among, same⟩ := List.mem_map.mp fresh
      obtain ⟨rfl, rfl⟩ := Prod.mk.inj same
      exact fits_section (sound.along number c made) taken among
    · exact fits actor event member
  | control now change =>
    rcases p.step_control sink now change with same | ⟨-, step⟩
    · rwa [same]
    · rwa [step]
  | world world => exact fits

theorem fits_run (sound : p.Sound sink n) (fits : p.log.Fits n) (moves : List (Move ω)) :
    (p.run sink moves).log.Fits n := by
  induction moves generalizing p with
  | nil => exact fits
  | cons move rest ih => exact ih (sound_step sound move) (fits_step sound fits move)

end Pool

end ScreenPreview.Stream
