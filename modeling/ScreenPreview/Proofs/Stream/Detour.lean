import ScreenPreview.Picture.Jpeg
import ScreenPreview.Proofs.Stream.Departures

/-!
The picture of a frame that was held back.

Size, pixels and timestamp of a frame survive the detour, the order of its channels does not: the
frame that comes out is read as one whose first channel is red (`picture?_heldPixels`). For an
encoder that looks at size, order and pixels alone, a replay therefore sends the picture of that
other frame (`replay_reads_rgba`).
-/
namespace ScreenPreview

namespace Picture

/-- The encoder is a function of the size, the order of the channels and the pixels. -/
def Encoder.LooksAtPixels (e : Encoder) : Prop :=
  ∀ p q : Pixels, p.width = q.width → p.height = q.height → p.format = q.format →
    p.trimmed.data = q.trimmed.data → e p.trimmed = e q.trimmed

theorem Pixels.check_congr {p q : Pixels} (width : p.width = q.width) (height : p.height = q.height)
    (data : p.data = q.data) : p.check = q.check := by
  unfold check expectedLength count
  rw [width, height, data]

theorem Pixels.colours_congr {p q : Pixels} (width : p.width = q.width)
    (height : p.height = q.height) (format : p.format = q.format) (data : p.data = q.data) :
    p.colours = q.colours := by
  unfold colours count
  rw [width, height, format, data]

theorem Jpeg.encode_looksAtPixels : Encoder.LooksAtPixels Jpeg.encode := by
  intro p q width height format data
  have size : p.trimmed.width = q.trimmed.width ∧ p.trimmed.height = q.trimmed.height :=
    ⟨width, height⟩
  have check := Pixels.check_congr size.1 size.2 data
  have colours := Pixels.colours_congr size.1 size.2 format data
  simp only [Jpeg.encode, check, colours, size]

theorem Encoder.picture?_congr {e : Encoder} (looks : e.LooksAtPixels) {p q : Pixels}
    (width : p.width = q.width) (height : p.height = q.height) (format : p.format = q.format)
    (data : p.trimmed.data = q.trimmed.data) : e.picture? p = e.picture? q := by
  rw [picture?, picture?, looks p q width height format data]

theorem Encoder.picture?_heldPixels {e : Encoder} (looks : e.LooksAtPixels) (p : Pixels) :
    e.picture? (Stream.Call.heldPixels p.toHeld) = e.picture? { p with format := .rgba } := by
  refine picture?_congr looks rfl rfl rfl ?_
  change (p.data.take p.expectedLength).take p.expectedLength = p.data.take p.expectedLength
  rw [List.take_take, Nat.min_self]

end Picture

namespace Stream.Feed

variable {ω : Type} {sink : Sink ω} {within : ω → Prop} {encoder : Picture.Encoder}
  {n room : Nat} {f g h : Feed}

/-- A frame that passes its check is held back by a feed `f` whose load has not finished, which
replays it once the load has. Carried out on any feed `g` the replay sends the picture of the frame
read as red, green and blue, while a feed `h` whose load has finished sends the picture of the frame
itself. -/
theorem replay_reads_rgba (serves : sink.Serves within) (looks : encoder.LooksAtPixels)
    (fitted_f : f.Fitted encoder n room) (fitted_g : g.Fitted encoder n room)
    (fitted_h : h.Fitted encoder n room) {pixels : Picture.Pixels} (valid : pixels.check = .ok ())
    (loading : f.upkeep.loadState ≠ .finished) (fresh_f : f.upkeep.loadStamp ≤ pixels.timestamp)
    (finished : h.upkeep.loadState = .finished) (fresh_h : h.upkeep.loadStamp ≤ pixels.timestamp)
    {w v u : ω} (here_w : within w) (here_v : within v) (here_u : within u) (now later : Int) :
    let held := f.offerLoad sink.watched now pixels (w, [])
    let replayed := g.carryOut sink.watched later (.replay pixels.toHeld) (v, [])
    let straight := h.offerLoad sink.watched later pixels (u, [])
    held.1 = .ok .cached ∧ loadPictures n held.2.2.2 = [] ∧
      .replay pixels.toHeld ∈ ((held.2.1.setLoadState .finished).tick later).1 ∧
      loadPictures n replayed.2.2.2 =
        (encoder.picture? { pixels with format := .rgba }).toList.filter (·.length ≤ room) ∧
      loadPictures n straight.2.2.2 = (encoder.picture? pixels).toList.filter (·.length ≤ room) ∧
      (pixels.format = .rgba →
        loadPictures n replayed.2.2.2 = loadPictures n straight.2.2.2) := by
  intro held replayed straight
  have waits : f.load.verdict? pixels = some .cached :=
    Load.verdict?_eq_cached_iff.mpr ⟨valid, fresh_f, loading⟩
  have passes : h.load.verdict? pixels = some .admitted :=
    Load.verdict?_eq_admitted_iff.mpr ⟨valid, fresh_h, finished⟩
  obtain ⟨nothing, load, answered, -⟩ :=
    offerLoad_brings serves now pixels fitted_f (w := (w, [])) here_w
  obtain ⟨brought, -⟩ := carryOut_replay serves later (Picture.Pixels.check_heldPixels valid)
    fitted_g (w := (v, [])) here_v
  obtain ⟨passed, -⟩ := offerLoad_brings serves later pixels fitted_h (w := (u, [])) here_u
  have sent_replayed : loadPictures n replayed.2.2.2 =
      (encoder.picture? { pixels with format := .rgba }).toList.filter (·.length ≤ room) := by
    rw [← Picture.Encoder.picture?_heldPixels looks]
    exact brought.shown
  have sent_straight : loadPictures n straight.2.2.2 =
      (encoder.picture? pixels).toList.filter (·.length ≤ room) := by
    rw [Load.straight?, if_pos passes] at passed
    exact passed.shown
  refine ⟨answered.mpr waits, ?_, ?_, sent_replayed, sent_straight, ?_⟩
  · rw [Load.straight?, waits] at nothing
    exact nothing.shown
  · refine Upkeep.replay_mem_plan.mpr ?_
    have reached : (held.2.1.setLoadState .finished).upkeep.load =
        (f.load.offer pixels).reach .finished := by
      rw [← load]
      rfl
    rw [reached, Load.offer, if_pos waits]
    rfl
  · intro rgba
    rw [sent_replayed, sent_straight, ← rgba]

def colouring : Picture.Encoder := fun frame => .ok (90, frame.colours)

theorem colouring_looksAtPixels : colouring.LooksAtPixels := by
  intro p q width height format data
  have colours : p.trimmed.colours = q.trimmed.colours :=
    Picture.Pixels.colours_congr width height format data
  simp only [colouring, colours]

def coloured : Feed :=
  .new { maxPayload := 64 } { resolution := .uniform ⟨1, 1⟩ } colouring 0 0

def spare (format : Picture.Format) : Picture.Pixels :=
  { data := [1, 2, 3, 4, 5], width := 1, height := 1, format }

theorem replay_reads_rgba_of_rgba :
    let replayed := coloured.carryOut Record.sink.watched 0 (.replay (spare .rgba).toHeld) ({}, [])
    let straight :=
      (coloured.setLoadState .finished).offerLoad Record.sink.watched 0 (spare .rgba) ({}, [])
    loadPictures 0 replayed.2.2.2 = loadPictures 0 straight.2.2.2 ∧
      loadPictures 0 straight.2.2.2 = [[1, 2, 3]] := by
  intro replayed straight
  have on : ({} : Record).ready = true ∧ ({} : Record).failures = 0 := ⟨rfl, rfl⟩
  have fitted : coloured.Fitted colouring 0 64 :=
    fitted_new { maxPayload := 64 } { resolution := .uniform ⟨1, 1⟩ } colouring 0 0
  have finished : (coloured.setLoadState .finished).Fitted colouring 0 64 := fitted.of_eq rfl rfl
  obtain ⟨-, -, -, -, sent, same⟩ := replay_reads_rgba Record.serves colouring_looksAtPixels fitted
    fitted finished (show (spare .rgba).check = .ok () from by decide) (by decide) (by decide) rfl
    (by decide) on on on 0 0
  exact ⟨same rfl, sent.trans (by decide)⟩

/-- Red and blue change places in a frame that is held back. -/
theorem replay_exchanges_red_and_blue :
    let held := coloured.offerLoad Record.sink.watched 0 (spare .bgra) ({}, [])
    let finished := held.2.1.setLoadState .finished
    let replayed :=
      (finished.tick 0).2.carryOutAll Record.sink.watched 0 (finished.tick 0).1 ({}, [])
    let straight :=
      (coloured.setLoadState .finished).offerLoad Record.sink.watched 0 (spare .bgra) ({}, [])
    colouring.LooksAtPixels ∧ (spare .bgra).check = .ok () ∧ held.1 = .ok .cached ∧
      loadPictures 0 replayed.2.2.2 = [[1, 2, 3]] ∧
      loadPictures 0 straight.2.2.2 = [[3, 2, 1]] :=
  ⟨colouring_looksAtPixels, by decide⟩

end Stream.Feed

end ScreenPreview
