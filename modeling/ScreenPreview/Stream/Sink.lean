import ScreenPreview.Bytes
import ScreenPreview.Failure

/-! Where packed frames go, through a world. -/
namespace ScreenPreview.Stream

/-- What came of a write: the number of bytes written or a failure, and what the sink left in the
bytes it had reserved. -/
structure Delivery where
  result : Except Failure Nat
  reserved : Bytes

structure Sink (ω : Type) where
  /-- Whether a viewer is attached. Asking may attach one that is waiting. -/
  isReady : ω → Bool × ω
  write : Bytes → ω → Delivery × ω

end ScreenPreview.Stream
