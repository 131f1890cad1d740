/-! The flag byte of a frame header: six bits name a flag each, the two highest name none. -/
namespace ScreenPreview.Wire

structure Flags where
  bits : UInt8
  deriving DecidableEq, Repr

namespace Flags

def none : Flags := ⟨0⟩
def empty : Flags := ⟨0x01⟩
def resend : Flags := ⟨0x02⟩
def static : Flags := ⟨0x04⟩
def folded : Flags := ⟨0x08⟩
/-- A part of a frame; kept free, whole frames never carry it. -/
def region : Flags := ⟨0x10⟩
def loadDoc : Flags := ⟨0x20⟩

def known : UInt8 := 0x3F

def union (a b : Flags) : Flags := ⟨a.bits ||| b.bits⟩

def includes (a b : Flags) : Bool := a.bits &&& b.bits == b.bits

def withIf (a : Flags) (condition : Bool) (extra : Flags) : Flags :=
  if condition then a.union extra else a

def ofBits? (b : UInt8) : Option Flags :=
  if b &&& known = b then some ⟨b⟩ else Option.none

def ofKnownBits (b : UInt8) : Flags := ⟨b &&& known⟩

def table : List (String × Flags) :=
  [("EMPTY", empty), ("RESEND", resend), ("STATIC", static), ("FOLDED", folded),
    ("REGION", region), ("LOAD_DOC", loadDoc)]

def names (a : Flags) : List String := (table.filter fun entry => a.includes entry.2).map (·.1)

theorem ofBits?_bits {b : UInt8} {f : Flags} (h : ofBits? b = some f) : f.bits = b := by
  unfold ofBits? at h
  split at h
  · cases h; rfl
  · cases h

end Flags

end ScreenPreview.Wire
