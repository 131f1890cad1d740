import ScreenPreview.Text.Utf8

/-! Why an operation on the screen stream fails. -/
namespace ScreenPreview

inductive HeaderFault where
  | truncated
  | noRoom
  | unknownFlags
  deriving DecidableEq, Repr

def HeaderFault.message : HeaderFault → String
  | truncated => "frame header truncated"
  | noRoom => "destination shorter than header"
  | unknownFlags => "unknown flag bits"

inductive EncodingFault where
  | noOutput
  | crashed
  | sideTooLong (width height : Nat)
  | reported (reason : String)
  deriving DecidableEq, Repr

def EncodingFault.message : EncodingFault → String
  | noOutput => "encoder produced no output"
  | crashed => "encode task failed: the encoder broke off"
  | sideTooLong width height =>
    "Format error encoding Jpeg:\n" ++
      s!"Invalid image size ({width} x {height}) to encode as JPEG: " ++
      "width and height must be >= 1 and <= 65535"
  | reported reason => reason

inductive Failure where
  | frameSize (width height : Int32)
  | noPixels
  | shortPixels (expected actual : Nat)
  | resolution (width height : Int32)
  | alreadyDone (step : String)
  | noViewer
  | partsOnly
  | tooLarge (size limit : Nat)
  | encoding (fault : EncodingFault)
  | header (fault : HeaderFault)
  | transport (reason : String)
  | notConnected
  | queueClosed
  | noPicture
  | nothingPacked
  | notText (fault : Text.Utf8.Fault)
  | unknownLoadState (word : String)
  | unknownFoldStatus (word : String)
  | other (reason : String)
  deriving DecidableEq, Repr

namespace Failure

def message : Failure → String
  | frameSize width height => s!"invalid frame size {width.toInt}x{height.toInt}"
  | noPixels => "empty pixel buffer"
  | shortPixels expected actual =>
    s!"pixel buffer too short: expected {expected} bytes, got {actual}"
  | resolution width height => s!"invalid resolution {width.toInt}x{height.toInt}"
  | alreadyDone step => s!"{step} already initialised"
  | noViewer => "sink not configured: viewer handshake incomplete"
  | partsOnly => "region refresh frames are not supported by this transmitter"
  | tooLarge size limit => s!"payload too large: {size} bytes (max {limit})"
  | encoding fault => s!"codec error: {fault.message}"
  | header fault => s!"invalid header: {fault.message}"
  | transport reason => s!"connection error: {reason}"
  | notConnected => "not connected"
  | queueClosed => "channel closed"
  | noPicture => "no frame cached"
  | nothingPacked => "nothing packed"
  | notText fault => s!"command is not utf-8: {fault.message}"
  | unknownLoadState word => s!"unknown load state `{word}`"
  | unknownFoldStatus word => s!"unknown fold status `{word}`"
  | other reason => reason

/-- Whether the frame itself was refused, or the time to send it had not come. Such failures are
part of normal operation and are not worth a warning. -/
def isRoutine : Failure → Bool
  | frameSize .. | noPixels | shortPixels .. | noViewer | partsOnly => true
  | _ => false

end Failure

end ScreenPreview
