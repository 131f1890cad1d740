import ScreenPreview.Control.Registry
import ScreenPreview.Picture.Jpeg
import ScreenPreview.Server.Config
import ScreenPreview.Stream.Call

/-!
The preview that viewers control, and the commands on it. A command reads all its arguments before
it changes anything.
-/
namespace ScreenPreview.Server

open Control (Command Handler Kind Refusal Registry)

/-- What the clocks show: the one that the timers go by, and the calendar, which counts milliseconds
since the start of 1970. -/
structure Moment where
  now : Int
  calendar : Int
  deriving DecidableEq, Repr

structure Preview where
  feed : Stream.Feed
  router : String := ""

namespace Preview

def ofConfig (c : Config) (now : Int) : Preview where
  feed := .new c.settings c.geometry Picture.Jpeg.encode 0 now

def changeGeometry (s : Preview) (now : Int) (geometry : Screen.Geometry) : Preview :=
  { s with feed := { s.feed with geometry }.fitBuffer.contentChanged now }

def done : Json := .bool true

/-! ### Arguments -/

/-- The display and the compression size of a command. A compression side that is missing, or is
no signed word of 32 bits, is that of the display size. -/
def sizes (c : Command) : Except Refusal (Screen.Size × Screen.Size) := do
  let width ← c.int32Arg "originalWidth"
  let height ← c.int32Arg "originalHeight"
  let orElse (name : String) (side : Int32) : Int32 := (c.int32Arg name).toOption.getD side
  pure (⟨width, height⟩, ⟨orElse "compressionWidth" width, orElse "compressionHeight" height⟩)

def wordArg {α : Type} (c : Command) (name : String) (read : String → Except Failure α) :
    Except Refusal α := do
  let word ← c.textArg name
  (read word).mapError fun failure => .failed failure.message

def millisecondsArg (c : Command) (name : String) : Except Refusal Nat := do
  let n ← c.int32Arg name
  if n < 0 then .error (.badArguments (.negative name)) else .ok n.toNatClampNeg

def stamp (c : Command) (calendar : Int) : Int :=
  ((c.args.member? "timestamp").bind Json.int64?).getD calendar

/-! ### Commands -/

def changeSizes (m : Moment) : Handler Preview := fun c s =>
  match sizes c with
  | .error refusal => (.error refusal, s)
  | .ok (display, compression) =>
    match s.feed.geometry.setSizes display compression with
    | (.error failure, geometry) =>
      (.error (.failed failure.message), { s with feed := { s.feed with geometry } })
    | (.ok (), geometry) => (.ok done, s.changeGeometry m.now geometry)

def rotate (m : Moment) : Handler Preview := fun _ s =>
  let s := s.changeGeometry m.now s.feed.geometry.reverse
  let size := s.feed.geometry.resolution.display
  (.ok (.record [("originalWidth", .int size.width.toInt),
    ("originalHeight", .int size.height.toInt)]), s)

def setFoldStatus (m : Moment) : Handler Preview := fun c s =>
  match wordArg c "foldStatus" Screen.FoldStatus.ofName with
  | .error refusal => (.error refusal, s)
  | .ok status =>
    if s.feed.geometry.resolution.foldable then
      (.ok done, s.changeGeometry m.now (s.feed.geometry.applyFold status))
    else (.error (.failed "device is not foldable"), s)

def limitRate : Handler Preview := fun c s =>
  match millisecondsArg c "frequency" with
  | .error refusal => (.error refusal, s)
  | .ok milliseconds => (.ok done, { s with feed := s.feed.setDropInterval milliseconds })

def tellScreen : Handler Preview := fun _ s =>
  (.ok (.record s.feed.geometry.resolution.members), s)

def setLoadState (m : Moment) : Handler Preview := fun c s =>
  match wordArg c "flag" Screen.LoadState.ofName with
  | .error refusal => (.error refusal, s)
  | .ok .loading => (.ok done, { s with feed := s.feed.beginLoad (stamp c m.calendar) })
  | .ok state => (.ok done, { s with feed := s.feed.setLoadState state })

def tellRouter : Handler Preview := fun _ s =>
  (.ok (.record [("CurrentRouter", .text s.router)]), s)

def putRouter : Handler Preview := fun c s =>
  match c.textArg "CurrentRouter" with
  | .error refusal => (.error refusal, s)
  | .ok router => (.ok done, { s with router })

def passing : List String :=
  ["Resolution", "Rotate", "FoldStatus", "ScreenInfo", "LoadDocFlag", "CurrentRouter"]

def commands (m : Moment) : Registry Preview :=
  let registry := (Registry.empty : Registry Preview)
    |>.register .set "Resolution" (changeSizes m)
    |>.register .action "Rotate" (rotate m)
    |>.register .set "FoldStatus" (setFoldStatus m)
    |>.register .set "DropFrame" limitRate
    |>.register .get "ScreenInfo" tellScreen
    |>.register .set "LoadDocFlag" (setLoadState m)
    |>.register .get "CurrentRouter" tellRouter
    |>.register .set "CurrentRouter" putRouter
  passing.foldl Registry.letPass registry

def process (m : Moment) (line : String) (s : Preview) : Option String × Preview :=
  (commands m).process line s.feed.stillness.mode s

end Preview

end ScreenPreview.Server
