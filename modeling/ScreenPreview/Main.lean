import ScreenPreview.Server.Channel
import ScreenPreview.Server.Options
import Std.Time.DateTime.Timestamp

/-! The program, controlled over standard input and output. No viewer can attach to it. -/
namespace ScreenPreview.Program

open Server (Config Moment Options Preview)

def temporary : IO String := do
  return (← IO.getEnv "TMPDIR").getD "/tmp"

def fileBytes? (path : String) : IO (Option Bytes) := do
  try
    return some (← IO.FS.readBinFile path).toList
  catch _ =>
    return none

def settings (path : String) : IO Config := do
  let loaded := Config.load (← fileBytes? path)
  match loaded with
  | .found _ => pure ()
  | .invalid => IO.eprintln s!"invalid config {path}; using defaults"
  | .missing => IO.eprintln s!"no config at {path}; using defaults"
  return loaded.config

def moment : IO Moment := do
  let now ← IO.monoNanosNow
  let calendar ← Std.Time.Timestamp.now
  return ⟨now, calendar.toMillisecondsSinceUnixEpoch.val⟩

def answer : List String → Preview → IO Preview
  | [], preview => pure preview
  | line :: rest, preview => do
    let (reply, preview) := preview.process (← moment) line
    match reply with
    | some reply => IO.println reply
    | none => pure ()
    answer rest preview

partial def serve (input : IO.FS.Stream) (pending : Bytes) (preview : Preview) : IO Unit := do
  let data ← input.read Server.Channel.chunkSize.toUSize
  if data.isEmpty then return
  let (lines, pending) :=
    Control.Line.takeAll Control.Line.defaultLimit (pending ++ data.toList)
  serve input pending (← answer lines preview)

def run (config : Config) : IO Unit := do
  let names := config.socketNames (← temporary)
  let size := config.screen.display
  let compressed := config.screen.compression
  IO.eprintln s!"image pipe: {names.image}"
  IO.eprintln s!"command pipe: {names.command}"
  IO.eprintln <|
    s!"resolution: {size.width.toInt}x{size.height.toInt} " ++
    s!"(compressed {compressed.width.toInt}x{compressed.height.toInt})"
  for warning in config.warnings do
    IO.eprintln warning
  serve (← IO.getStdin) [] (Preview.ofConfig config (← moment).now)

def perform (options : Options) : IO Unit := do
  if options.printDefaults then
    IO.println Config.defaultText
  else
    match options.writeDefaults with
    | some path =>
      IO.FS.writeFile path Config.defaultText
      IO.println s!"Default config written to {path}"
    | none => run (options.rename (← settings options.settings))

end ScreenPreview.Program

def main (words : List String) : IO UInt32 := do
  match ScreenPreview.Server.Options.read words {} with
  | .ok options =>
    ScreenPreview.Program.perform options
    return 0
  | .error misuse =>
    IO.eprintln s!"error: {misuse.message}"
    return 2
