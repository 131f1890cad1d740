import ScreenPreview.Bytes

/-!
Where a run of bytes stops being UTF-8. The fault lies at the start of the character and is as long
as the part of it that was still in order.
-/
namespace ScreenPreview.Text.Utf8

inductive Fault where
  | malformed (place length : Nat)
  | incomplete (place : Nat)
  deriving DecidableEq, Repr

def Fault.message : Fault → String
  | .malformed place length => s!"invalid utf-8 sequence of {length} bytes from index {place}"
  | .incomplete place => s!"incomplete utf-8 byte sequence from index {place}"

abbrev Range := UInt8 × UInt8

def Range.holds (r : Range) (b : UInt8) : Bool := r.1 ≤ b && b ≤ r.2

def continuation : Range := (0x80, 0xBF)

/-- The ranges of the bytes that follow a lead byte; `none` for a byte that leads no character.
The narrowed ranges shut out overlong forms, surrogates and points above U+10FFFF. -/
def followers (lead : UInt8) : Option (List Range) :=
  if lead ≤ 0x7F then some []
  else if lead < 0xC2 then none
  else if lead ≤ 0xDF then some [continuation]
  else if lead = 0xE0 then some [(0xA0, 0xBF), continuation]
  else if lead = 0xED then some [(0x80, 0x9F), continuation]
  else if lead ≤ 0xEF then some [continuation, continuation]
  else if lead = 0xF0 then some [(0x90, 0xBF), continuation, continuation]
  else if lead ≤ 0xF3 then some [continuation, continuation, continuation]
  else if lead = 0xF4 then some [(0x80, 0x8F), continuation, continuation]
  else none

def scan (place taken : Nat) : List Range → Bytes → Option Fault
  | [], [] => none
  | _ :: _, [] => some (.incomplete place)
  | [], b :: rest =>
    match followers b with
    | none => some (.malformed (place + taken) 1)
    | some expected => scan (place + taken) 1 expected rest
  | r :: expected, b :: rest =>
    if r.holds b then scan place (taken + 1) expected rest else some (.malformed place taken)

def fault? (b : Bytes) : Option Fault := scan 0 0 [] b

def read (b : Bytes) : Except Fault String :=
  match Bytes.text? b with
  | some s => .ok s
  | none => .error ((fault? b).getD (.incomplete b.length))

theorem read_ofText (s : String) : read (Bytes.ofText s) = .ok s := by
  simp [read, Bytes.text?_ofText]

end ScreenPreview.Text.Utf8
