/-! Instants, in nanoseconds since an arbitrary start, and lengths of time in nanoseconds. -/
namespace ScreenPreview.Stream

/-- The nanoseconds from `earlier` to `now`; none if `now` comes first. -/
def elapsed (earlier now : Int) : Nat := (now - earlier).toNat

def millis (n : Nat) : Nat := n * 1000000

def wholeMillis (length : Nat) : UInt64 := (length / 1000000).toUInt64

end ScreenPreview.Stream
