import ScreenPreview.Bytes
import ScreenPreview.Failure

/-! What a local socket asks of the operating system. Every answer of a system is a value. -/
namespace ScreenPreview.Local

structure Listener where
  number : Nat
  deriving DecidableEq, Repr

structure Peer where
  number : Nat
  deriving DecidableEq, Repr

inductive Removal where
  | removed
  | absent
  | refused (reason : String)
  deriving DecidableEq, Repr

inductive Reading where
  | bytes (data : Bytes)
  | quiet
  | ended
  deriving DecidableEq, Repr

structure Host (ω : Type) where
  remove : String → ω → Removal × ω
  listen : String → ω → Except Failure Listener × ω
  connect : String → ω → Except Failure Peer × ω
  accept : Listener → ω → Except Failure (Option Peer) × ω
  poll : Peer → ω → Except Failure Bool × ω
  read : Peer → Nat → ω → Except Failure Reading × ω
  write : Peer → Bytes → ω → Except Failure Unit × ω
  closeListener : Listener → ω → ω
  closePeer : Peer → ω → ω

end ScreenPreview.Local
