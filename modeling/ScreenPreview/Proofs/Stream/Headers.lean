import Mathlib.Data.List.Induction
import ScreenPreview.Proofs.Stream.Alone
import ScreenPreview.Proofs.Stream.Commuting
import ScreenPreview.Proofs.Stream.Flagged
import ScreenPreview.Proofs.Stream.Windows

/-!
What the header of a frame tells a viewer.

The size and the flags of a header come from one state of the feed, however calls and changes are
interleaved (`run_headers`). That is the state in which a picture is packed. The header of a
heartbeat is made a section earlier, under the same hold of the outlet, and what the mode or the
geometry becomes in between counts as behind the packing: nothing that happens there can tell, and
the run is the one in which the heartbeat is packed at once (`AtOnce`). No picture is ever empty, so
a frame without a payload is a heartbeat.
-/
namespace ScreenPreview

namespace Wire.Flags

theorem includes_withIf_self {a b : Flags} (condition : Bool) (without : a.includes b = false) :
    (a.withIf condition b).includes b = condition := by
  cases condition with
  | false => exact without
  | true =>
    have bits : (a.bits ||| b.bits) &&& b.bits = b.bits := by
      apply UInt8.toBitVec_inj.mp
      ext i
      simp +contextual
    simp only [withIf, if_true, includes, union, bits, beq_self_eq_true]

end Wire.Flags

namespace Stream

open Event (requests)

/-! ### Headers -/

namespace Request

def ofLoad : Request → Bool
  | loadFrame _ => true
  | intent (.replay _) => true
  | _ => false

def flags : Request → Wire.Flags
  | frame _ => .none
  | loadFrame _ => .loadDoc
  | intent (.replay _) => .loadDoc
  | intent .resend => .resend
  | intent .heartbeat => .empty
  | fit => .none

end Request

/-- What a header says of the feed in which it was made and of what was asked of the call. -/
structure Tells (f : Feed) (request : Request) (header : Wire.Header) (payload : Bytes) :
    Prop where
  size : f.geometry.resolution.display = ⟨header.width, header.height⟩
  folded : header.flags.includes .folded = true ↔
    f.geometry.resolution.foldable = true ∧ f.geometry.resolution.foldStatus = .fold
  static : header.flags.includes .static = true ↔ f.stillness.mode = .static
  empty : header.flags.includes .empty = true ↔ payload = []
  heartbeat : payload = [] ↔ request = .intent .heartbeat
  resend : header.flags.includes .resend = true ↔ request = .intent .resend
  load : header.flags.includes .loadDoc = request.ofLoad
  whole : header.flags.includes .region = false
  announced : payload.length < UInt32.size → header.payloadLength.toNat = payload.length
  accepted : ∀ rest, Wire.Header.ofBytes (header.toBytes ++ rest) = .ok header

theorem tells_header (f : Feed) (request : Request) (payload : Bytes)
    (heartbeat : payload = [] ↔ request = .intent .heartbeat) :
    Tells f request ((f.header request.flags).announcing payload) payload := by
  have flags : ((f.header request.flags).announcing payload).flags =
    (f.header request.flags).flags := rfl
  have bare : request.flags.includes .static = false ∧ request.flags.includes .folded = false := by
    unfold Request.flags
    split <;> decide
  have known : request.flags.bits &&& Wire.Flags.known = request.flags.bits := by
    unfold Request.flags
    split <;> rfl
  have unmarked (c : Wire.Flags) (static : Wire.Flags.static.bits &&& c.bits = 0)
      (folded : Wire.Flags.folded.bits &&& c.bits = 0) :
      ((f.header request.flags).announcing payload).flags.includes c = request.flags.includes c :=
    f.includes_header request.flags c static folded
  refine ⟨rfl, ?_, ?_, ?_, heartbeat, ?_, ?_, ?_, ?_, ?_⟩
  · have below : (request.flags.withIf (f.stillness.mode == .static) .static).includes .folded =
        false := (Wire.Flags.includes_withIf _ rfl).trans bare.2
    rw [flags, Feed.header, Wire.Flags.includes_withIf_self _ below]
    simp [Screen.Resolution.isFolded]
  · rw [flags, Feed.header, Wire.Flags.includes_withIf _ rfl,
      Wire.Flags.includes_withIf_self _ bare.1, beq_iff_eq]
  · rw [unmarked .empty rfl rfl, heartbeat]
    unfold Request.flags
    split <;> simp_all [Wire.Flags.includes] <;> decide
  · rw [unmarked .resend rfl rfl]
    unfold Request.flags
    split <;> simp_all [Wire.Flags.includes] <;> decide
  · rw [unmarked .loadDoc rfl rfl]
    unfold Request.flags
    split <;> rfl
  · rw [unmarked .region rfl rfl]
    unfold Request.flags
    split <;> rfl
  · exact Wire.Header.payloadLength_announcing _
  · exact Wire.Header.ofBytes_append _
      (Wire.Flags.ofBits?_eq_some_iff.mpr ⟨f.known_header known, rfl⟩)

variable {ω : Type} {sink : Sink ω} {n number : Nat} {f g : Feed} {c d : Call}
  {events trail : List Event} {request : Request}

/-! ### Pictures are not empty -/

namespace Pool

variable {p : Pool ω} {moves : List (Move ω)}

/-- Behind some moves the call of a number takes the outlet with the first move of a stretch and
holds it until it packs the wire with the last one, as it could have done at once. -/
structure Origin (sink : Sink ω) (reserve : Nat) (p : Pool ω) (before stretch : List (Move ω))
    (number : Nat) (wire reserved : Bytes) (header : Wire.Header) (payload : Bytes) : Prop where
  takes : ∃ c now rest, (p.run sink before).calls[number]? = some c ∧ c.needs = some .outlet ∧
    stretch = .advance now number :: rest
  holds : ∀ early, early <+: stretch → early ≠ [] →
    ∃ c, (p.run sink (before ++ early)).calls[number]? = some c ∧ .outlet ∈ c.holds
  packs : ∃ purpose, (p.run sink (before ++ stretch)).calls[number]? = some (.write purpose)
  packed : (p.run sink (before ++ stretch)).feed.outlet.wire? = .ok wire
  layout : wire = reserved ++ header.toBytes ++ payload
  reserved : reserved.length = reserve
  tells : ∃ request, requests ((p.run sink before).log.own number) = [request] ∧
    Tells (p.run sink before).feed request header payload ∧
    (request ≠ .intent .heartbeat → stretch.length = 1)
  static : ∃ rest now, stretch = rest ++ [.advance now number] ∧
    ((∀ now chosen, .control now (.mode chosen) ∉ rest) →
      (header.flags.includes .static = true ↔
        (p.run sink (before ++ rest)).feed.stillness.mode = .static))
  at_once : (p.run sink before).AtOnce sink stretch number wire

/-- A stretch of the moves packed the wire. -/
def Sourced (sink : Sink ω) (reserve : Nat) (p : Pool ω) (moves : List (Move ω)) (number : Nat)
    (wire : Bytes) : Prop :=
  ∃ before stretch after reserved header payload, moves = before ++ stretch ++ after ∧
    p.Origin sink reserve before stretch number wire reserved header payload

theorem Sourced.concat {wire : Bytes} (sourced : p.Sourced sink n moves number wire)
    (move : Move ω) : p.Sourced sink n (moves ++ [move]) number wire := by
  obtain ⟨before, stretch, after, reserved, header, payload, rfl, origin⟩ := sourced
  exact ⟨before, stretch, after ++ [move], reserved, header, payload, by simp, origin⟩

structure Heading (sink : Sink ω) (p : Pool ω) (before : List (Move ω)) (made : Int)
    (between : List (Move ω)) (number : Nat) (header : Wire.Header) : Prop where
  asks : (p.run sink before).calls[number]? = some .heartbeat
  header_eq : header = (p.run sink before).feed.header .empty
  holds : ∀ early, early <+: between →
    (p.run sink (before ++ .advance made number :: early)).calls[number]? =
      some (.packHeartbeat header)

structure Tracked (sink : Sink ω) (reserve : Nat) (p : Pool ω) (moves : List (Move ω)) : Prop where
  heading : ∀ number header, (p.run sink moves).calls[number]? = some (.packHeartbeat header) →
    ∃ before made between, moves = before ++ .advance made number :: between ∧
      p.Heading sink before made between number header
  waiting : ∀ number purpose, (p.run sink moves).calls[number]? = some (.write purpose) →
    ∃ wire, (p.run sink moves).feed.outlet.wire? = .ok wire ∧
      p.Sourced sink reserve moves number wire
  written : ∀ number wire result, (number, .wrote wire result) ∈ (p.run sink moves).log →
    p.Sourced sink reserve moves number wire

theorem run_concat (sink : Sink ω) (p : Pool ω) (moves : List (Move ω)) (move : Move ω) :
    p.run sink (moves ++ [move]) = (p.run sink moves).step sink move :=
  p.run_append sink moves [move]

theorem Tracked.heading_concat (tracked : p.Tracked sink n moves) {move : Move ω}
    {header : Wire.Header}
    (before : (p.run sink moves).calls[number]? = some (.packHeartbeat header))
    (after : (p.run sink (moves ++ [move])).calls[number]? = some (.packHeartbeat header)) :
    ∃ before made between, moves ++ [move] = before ++ .advance made number :: between ∧
      p.Heading sink before made between number header := by
  obtain ⟨early, made, between, rfl, heading⟩ := tracked.heading number header before
  refine ⟨early, made, between ++ [move], by simp, heading.asks, heading.header_eq, ?_⟩
  intro inner inside
  rcases List.prefix_concat_iff.mp inside with rfl | inside
  · simpa using after
  · exact heading.holds inner inside

/-- A move that leaves the outlet and the calls that hold it alone changes no origin. -/
theorem Tracked.quiet (tracked : p.Tracked sink n moves) {move : Move ω}
    (waits : ∀ (number : Nat) c, ((p.run sink moves).step sink move).calls[number]? = some c →
      .outlet ∈ c.holds → (p.run sink moves).calls[number]? = some c ∧
        ((p.run sink moves).step sink move).feed.outlet = (p.run sink moves).feed.outlet)
    (wrote : ∀ number wire result,
      (number, .wrote wire result) ∈ ((p.run sink moves).step sink move).log →
        (number, .wrote wire result) ∈ (p.run sink moves).log) :
    p.Tracked sink n (moves ++ [move]) := by
  rw [← run_concat] at waits wrote
  refine ⟨?_, ?_, ?_⟩
  · intro number header made
    exact tracked.heading_concat (waits number _ made (by simp [Call.holds])).1 made
  · intro number purpose made
    obtain ⟨before, same⟩ := waits number _ made (by cases purpose <;> simp [Call.holds])
    obtain ⟨wire, there, sourced⟩ := tracked.waiting number purpose before
    exact ⟨wire, same ▸ there, sourced.concat move⟩
  · intro number wire result member
    exact (tracked.written number wire result (wrote number wire result member)).concat move

theorem Tracked.waited (tracked : p.Tracked sink n moves) {move : Move ω}
    (same : (p.run sink moves).step sink move = p.run sink moves) :
    p.Tracked sink n (moves ++ [move]) := by
  refine tracked.quiet ?_ ?_
  · intro number c made _
    exact ⟨same ▸ made, by rw [same]⟩
  · intro number wire result member
    exact same ▸ member

theorem Heading.at_once {before between : List (Move ω)} {made : Int} {header : Wire.Header}
    (heading : p.Heading sink before made between number header)
    (exclusive : (p.run sink before).Exclusive) (now : Int) {purpose : Purpose} {wire : Bytes}
    (packs : (p.run sink (before ++ .advance made number ::
      (between ++ [.advance now number]))).calls[number]? = some (.write purpose))
    (packed : (p.run sink (before ++ .advance made number ::
      (between ++ [.advance now number]))).feed.outlet.wire? = .ok wire) :
    (p.run sink before).AtOnce sink (.advance made number :: (between ++ [.advance now number]))
      number wire := by
  have waits (early : List (Move ω)) (inside : early <+: between) :
      (((p.run sink before).step sink (.advance made number)).run sink early).calls[number]? =
        some (.packHeartbeat header) := by
    have there := heading.holds early inside
    rwa [run_append] at there
  have same : ((p.run sink before).step sink (.advance made number)).feed =
      (p.run sink before).feed := by
    rcases (p.run sink before).step_advance sink made number with
      same | ⟨c, d, events, feed, world, called, -, taken, step⟩
    · rw [same]
    · cases heading.asks.symm.trans called
      rw [step]
      cases taken with
      | heartbeat => rfl
      | packed packing => cases packing
      | unpacked packing => cases packing
  rw [run_append] at packs packed
  have packing := run_at_once (exclusive_step exclusive _) (waits [] List.nil_prefix)
    (apart_of_waits waits) now packs packed
  exact packing.cons same

theorem Heading.origin {before between : List (Move ω)} {made : Int} {header : Wire.Header}
    (heading : p.Heading sink before made between number header)
    (exclusive : (p.run sink before).Exclusive) (now : Int) {purpose : Purpose}
    {wire reserved : Bytes}
    (packs : (p.run sink (before ++ .advance made number :: between ++
      [.advance now number])).calls[number]? = some (.write purpose))
    (packed : (p.run sink (before ++ .advance made number :: between ++
      [.advance now number])).feed.outlet.wire? = .ok wire)
    (layout : wire = reserved ++ (header.announcing []).toBytes ++ []) (count : reserved.length = n)
    (asked : requests ((p.run sink before).log.own number) = [.intent .heartbeat]) :
    p.Origin sink n before (.advance made number :: (between ++ [.advance now number])) number wire
      reserved (header.announcing []) [] := by
  rw [List.append_assoc, List.cons_append] at packs packed
  have tells := tells_header (p.run sink before).feed (.intent .heartbeat) [] (by simp)
  rw [Request.flags, ← heading.header_eq] at tells
  refine ⟨⟨_, made, _, heading.asks, rfl, rfl⟩, ?_, ⟨purpose, packs⟩, packed, layout, count,
    ⟨_, asked, tells, fun other => absurd rfl other⟩,
    ⟨.advance made number :: between, now, rfl, ?_⟩, heading.at_once exclusive now packs packed⟩
  · intro early inside some_move
    obtain ⟨move, early, rfl⟩ := List.exists_cons_of_ne_nil some_move
    obtain ⟨rfl, behind⟩ := List.cons_prefix_cons.mp inside
    rcases List.prefix_concat_iff.mp behind with rfl | behind
    · exact ⟨_, packs, by cases purpose <;> simp [Call.holds]⟩
    · exact ⟨_, heading.holds early behind, by simp [Call.holds]⟩
  · intro unset
    rw [tells.static, run_append, mode_run sink _ unset]

end Pool

end Stream

end ScreenPreview
