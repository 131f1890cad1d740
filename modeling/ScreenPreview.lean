import ScreenPreview.Bytes
import ScreenPreview.Control.Command
import ScreenPreview.Control.Line
import ScreenPreview.Control.Registry
import ScreenPreview.Decimal.Binary64
import ScreenPreview.Decimal.Rounded
import ScreenPreview.Decimal.Shortest
import ScreenPreview.Failure
import ScreenPreview.Json.Basic
import ScreenPreview.Json.Number
import ScreenPreview.Json.Printer
import ScreenPreview.Json.Reader
import ScreenPreview.Local.Host
import ScreenPreview.Local.Network
import ScreenPreview.Local.Path
import ScreenPreview.Local.Socket
import ScreenPreview.Main
import ScreenPreview.Picture.Colour
import ScreenPreview.Picture.Jpeg
import ScreenPreview.Picture.Jpeg.Entropy
import ScreenPreview.Picture.Jpeg.Image
import ScreenPreview.Picture.Jpeg.Tables
import ScreenPreview.Picture.Jpeg.Transform
import ScreenPreview.Picture.Pixels
import ScreenPreview.Proofs.Control.Cuttings
import ScreenPreview.Proofs.Control.Envelope
import ScreenPreview.Proofs.Control.Lengths
import ScreenPreview.Proofs.Control.Overlong
import ScreenPreview.Proofs.Control.Parsing
import ScreenPreview.Proofs.Control.Pieces
import ScreenPreview.Proofs.Control.Routing
import ScreenPreview.Proofs.Control.Segments
import ScreenPreview.Proofs.Control.Sending
import ScreenPreview.Proofs.Control.Spelling
import ScreenPreview.Proofs.Decimal.Zeros
import ScreenPreview.Proofs.Json.Grammar
import ScreenPreview.Proofs.Json.Numerals
import ScreenPreview.Proofs.Json.Printed
import ScreenPreview.Proofs.Json.Quoted
import ScreenPreview.Proofs.Json.Reading
import ScreenPreview.Proofs.Json.Records
import ScreenPreview.Proofs.Json.RoundTrip
import ScreenPreview.Proofs.Json.Scalars
import ScreenPreview.Proofs.Json.Sizes
import ScreenPreview.Proofs.Local.Bindings
import ScreenPreview.Proofs.Local.Connections
import ScreenPreview.Proofs.Picture.Checks
import ScreenPreview.Proofs.Picture.Colours
import ScreenPreview.Proofs.Screen.Sizes
import ScreenPreview.Proofs.Server.Allocations
import ScreenPreview.Proofs.Server.Answers
import ScreenPreview.Proofs.Server.Arguments
import ScreenPreview.Proofs.Server.Drawings
import ScreenPreview.Proofs.Server.Lengths
import ScreenPreview.Proofs.Server.Lines
import ScreenPreview.Proofs.Server.Orders
import ScreenPreview.Proofs.Server.Reads
import ScreenPreview.Proofs.Server.Refusals
import ScreenPreview.Proofs.Server.Rooms
import ScreenPreview.Proofs.Stream.Admissions
import ScreenPreview.Proofs.Stream.Alone
import ScreenPreview.Proofs.Stream.Claims
import ScreenPreview.Proofs.Stream.Cycle
import ScreenPreview.Proofs.Stream.Departures
import ScreenPreview.Proofs.Stream.Detour
import ScreenPreview.Proofs.Stream.Flagged
import ScreenPreview.Proofs.Stream.Freshness
import ScreenPreview.Proofs.Stream.Headers
import ScreenPreview.Proofs.Stream.Heartbeats
import ScreenPreview.Proofs.Stream.Idle
import ScreenPreview.Proofs.Stream.Interruptions
import ScreenPreview.Proofs.Stream.Layout
import ScreenPreview.Proofs.Stream.Leftover
import ScreenPreview.Proofs.Stream.Load
import ScreenPreview.Proofs.Stream.Locks
import ScreenPreview.Proofs.Stream.Ownership
import ScreenPreview.Proofs.Stream.Packing
import ScreenPreview.Proofs.Stream.Pool
import ScreenPreview.Proofs.Stream.Progress
import ScreenPreview.Proofs.Stream.Refused
import ScreenPreview.Proofs.Stream.Relay
import ScreenPreview.Proofs.Stream.Repeats
import ScreenPreview.Proofs.Stream.Replays
import ScreenPreview.Proofs.Stream.Resends
import ScreenPreview.Proofs.Stream.Returns
import ScreenPreview.Proofs.Stream.Section
import ScreenPreview.Proofs.Stream.Silences
import ScreenPreview.Proofs.Stream.Slices
import ScreenPreview.Proofs.Stream.Spacing
import ScreenPreview.Proofs.Stream.Stamps
import ScreenPreview.Proofs.Stream.Standing
import ScreenPreview.Proofs.Stream.Totals
import ScreenPreview.Proofs.Stream.Viewers
import ScreenPreview.Proofs.Stream.Windows
import ScreenPreview.Proofs.Stream.WireContents
import ScreenPreview.Proofs.Wire.Chunks
import ScreenPreview.Proofs.Wire.Verdicts
import ScreenPreview.Screen.Geometry
import ScreenPreview.Screen.Mode
import ScreenPreview.Server.Broadcast
import ScreenPreview.Server.Channel
import ScreenPreview.Server.Config
import ScreenPreview.Server.Options
import ScreenPreview.Server.Pattern
import ScreenPreview.Server.Preview
import ScreenPreview.Server.Section
import ScreenPreview.Server.Service
import ScreenPreview.Server.Source
import ScreenPreview.Stream.Call
import ScreenPreview.Stream.Clock
import ScreenPreview.Stream.Feed
import ScreenPreview.Stream.Outlet
import ScreenPreview.Stream.PackBuffer
import ScreenPreview.Stream.RateLimit
import ScreenPreview.Stream.Record
import ScreenPreview.Stream.Sink
import ScreenPreview.Stream.Stillness
import ScreenPreview.Stream.Tally
import ScreenPreview.Stream.Timers
import ScreenPreview.Stream.Upkeep
import ScreenPreview.Text.Blank
import ScreenPreview.Text.Utf8
import ScreenPreview.Toml.Document
import ScreenPreview.Toml.Number
import ScreenPreview.Toml.Printer
import ScreenPreview.Toml.Token
import ScreenPreview.Toml.Value
import ScreenPreview.Wire.Flags
import ScreenPreview.Wire.Frame
import ScreenPreview.Wire.Header
