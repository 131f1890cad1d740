import ScreenPreview.Local.Path
import ScreenPreview.Server.Section
import ScreenPreview.Stream.Feed
import ScreenPreview.Toml.Printer

/-!
The settings of a server, read from a TOML text. One that is no document, or gives a setting a value
of the wrong kind, leaves all settings at their defaults.
-/
namespace ScreenPreview.Server

structure SocketSettings where
  baseName : String := "vscreen"
  dir : String := ""
  deriving DecidableEq, Repr

structure ScreenSettings where
  display : Screen.Size := ⟨1080, 2340⟩
  compression : Screen.Size := ⟨1080, 2340⟩
  mode : String := "dynamic"
  foldable : Bool := false
  foldStatus : String := "unfold"
  fold : Screen.Size := ⟨0, 0⟩
  deriving DecidableEq, Repr

/-- Times in milliseconds and sizes in bytes, all below `2 ^ 63`. -/
structure StreamSettings where
  dropInterval : Nat := 0
  staticWindow : Nat := 3000
  maxPayload : Nat := 0
  idleThreshold : Nat := 8000
  renderCeiling : Nat := 2000
  startupGrace : Nat := 5000
  resendInterval : Nat := 300
  tick : Nat := 50
  deriving DecidableEq, Repr

structure SourceSettings where
  enabled : Bool := true
  rate : UInt8 := 30
  deriving DecidableEq, Repr

def SocketSettings.ofSection (s : Section) : Option SocketSettings := do
  let base : SocketSettings := {}
  pure {
    baseName := ← s.text "base_name" 0 base.baseName
    dir := ← s.text "dir" 1 base.dir }

def ScreenSettings.ofSection (s : Section) : Option ScreenSettings := do
  let base : ScreenSettings := {}
  let displayWidth ← s.side "original_width" 0 base.display.width
  let displayHeight ← s.side "original_height" 1 base.display.height
  let compressionWidth ← s.side "compression_width" 2 base.compression.width
  let compressionHeight ← s.side "compression_height" 3 base.compression.height
  let mode ← s.text "mode" 4 base.mode
  let foldable ← s.bool "foldable" 5 base.foldable
  let foldStatus ← s.text "fold_status" 6 base.foldStatus
  let foldWidth ← s.side "fold_width" 7 base.fold.width
  let foldHeight ← s.side "fold_height" 8 base.fold.height
  pure {
    display := ⟨displayWidth, displayHeight⟩
    compression := ⟨compressionWidth, compressionHeight⟩
    mode
    foldable
    foldStatus
    fold := ⟨foldWidth, foldHeight⟩ }

def StreamSettings.ofSection (s : Section) : Option StreamSettings := do
  let base : StreamSettings := {}
  pure {
    dropInterval := ← s.count "drop_frame_frequency_ms" 0 base.dropInterval
    staticWindow := ← s.count "static_window_ms" 1 base.staticWindow
    maxPayload := ← s.count "max_payload_bytes" 2 base.maxPayload
    idleThreshold := ← s.count "idle_threshold_ms" 3 base.idleThreshold
    renderCeiling := ← s.count "render_ceiling_ms" 4 base.renderCeiling
    startupGrace := ← s.count "startup_grace_ms" 5 base.startupGrace
    resendInterval := ← s.count "resend_interval_ms" 6 base.resendInterval
    tick := ← s.count "tick_ms" 7 base.tick }

def SourceSettings.ofSection (s : Section) : Option SourceSettings := do
  let base : SourceSettings := {}
  let enabled ← s.bool "enabled" 0 base.enabled
  let rate ← s.int "fps" 1 0 255 base.rate.toNat
  pure { enabled, rate := rate.toNat.toUInt8 }

structure Config where
  sockets : SocketSettings := {}
  screen : ScreenSettings := {}
  stream : StreamSettings := {}
  source : SourceSettings := {}
  logLevel : String := "info"
  deriving DecidableEq, Repr

namespace Config

def ofMembers? (members : Toml.Members) : Option Config := do
  let base : Config := {}
  let logging ← Section.find? members "logging"
  pure {
    sockets := ← SocketSettings.ofSection (← Section.find? members "pipes")
    screen := ← ScreenSettings.ofSection (← Section.find? members "screen")
    stream := ← StreamSettings.ofSection (← Section.find? members "stream")
    source := ← SourceSettings.ofSection (← Section.find? members "source")
    logLevel := ← logging.text "level" 0 base.logLevel }

inductive Loaded where
  | found (config : Config)
  | invalid
  | missing
  deriving DecidableEq, Repr

def load (file : Option Bytes) : Loaded :=
  match file.bind Bytes.text? with
  | none => .missing
  | some text =>
    match (Toml.read text).bind ofMembers? with
    | some config => .found config
    | none => .invalid

def Loaded.config : Loaded → Config
  | found config => config
  | invalid => {}
  | missing => {}

/-! ### Writing -/

def sections (c : Config) : List (String × List (String × Toml.Setting)) :=
  let count (n : Nat) : Toml.Setting := .int n
  let side (n : Int32) : Toml.Setting := .int n.toInt
  [("pipes", [("base_name", .text c.sockets.baseName), ("dir", .text c.sockets.dir)]),
    ("screen",
      [("original_width", side c.screen.display.width),
        ("original_height", side c.screen.display.height),
        ("compression_width", side c.screen.compression.width),
        ("compression_height", side c.screen.compression.height),
        ("mode", .text c.screen.mode), ("foldable", .bool c.screen.foldable),
        ("fold_status", .text c.screen.foldStatus),
        ("fold_width", side c.screen.fold.width), ("fold_height", side c.screen.fold.height)]),
    ("stream",
      [("drop_frame_frequency_ms", count c.stream.dropInterval),
        ("static_window_ms", count c.stream.staticWindow),
        ("max_payload_bytes", count c.stream.maxPayload),
        ("idle_threshold_ms", count c.stream.idleThreshold),
        ("render_ceiling_ms", count c.stream.renderCeiling),
        ("startup_grace_ms", count c.stream.startupGrace),
        ("resend_interval_ms", count c.stream.resendInterval), ("tick_ms", count c.stream.tick)]),
    ("source", [("enabled", .bool c.source.enabled), ("fps", count c.source.rate.toNat)]),
    ("logging", [("level", .text c.logLevel)])]

def defaultText : String := Toml.render (sections {})

/-! ### Meaning -/

def socketNames (c : Config) (temporary : String) : Local.SocketNames :=
  ⟨if c.sockets.dir.isEmpty then temporary else c.sockets.dir, c.sockets.baseName⟩

def mode (c : Config) : Screen.Mode := (Screen.Mode.ofName? c.screen.mode).getD .dynamic

def foldStatus (c : Config) : Screen.FoldStatus :=
  match Screen.FoldStatus.ofName c.screen.foldStatus with
  | .ok status => status
  | .error _ => .unfold

def warnings (c : Config) : List String :=
  let ofMode :=
    if (Screen.Mode.ofName? c.screen.mode).isSome then []
    else [s!"unknown screen mode `{c.screen.mode}`; using dynamic"]
  let ofFold := match Screen.FoldStatus.ofName c.screen.foldStatus with
    | .ok _ => []
    | .error failure => [s!"{failure.message}; using unfold"]
  ofMode ++ ofFold

def resolution (c : Config) : Screen.Resolution :=
  let atLeastOne (s : Screen.Size) : Screen.Size := ⟨max s.width 1, max s.height 1⟩
  { Screen.Resolution.uniform (atLeastOne c.screen.display) with
    compression := atLeastOne c.screen.compression }

def foldParameters (c : Config) : Screen.FoldParameters where
  foldable := c.screen.foldable
  status := c.foldStatus
  size := ⟨max c.screen.fold.width 0, max c.screen.fold.height 0⟩

def geometry (c : Config) : Screen.Geometry :=
  let fresh : Screen.Geometry := { resolution := c.resolution }
  (fresh.takeFold c.foldParameters).2

theorem takeFold_geometry (c : Config) :
    (Screen.Geometry.mk c.resolution false).takeFold c.foldParameters =
      (.ok (), c.geometry) := rfl

def settings (c : Config) : Stream.Settings where
  mode := c.mode
  dropInterval := c.stream.dropInterval
  staticWindow := Stream.millis c.stream.staticWindow
  maxPayload := c.stream.maxPayload
  timing := {
    idleThreshold := Stream.millis c.stream.idleThreshold
    renderCeiling := Stream.millis c.stream.renderCeiling
    startupGrace := Stream.millis c.stream.startupGrace
    resendInterval := Stream.millis c.stream.resendInterval
    tick := Stream.millis (max c.stream.tick 1) }

end Config

end ScreenPreview.Server
