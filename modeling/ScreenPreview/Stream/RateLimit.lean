import ScreenPreview.Stream.Clock

/-! The rate limit for frames: claims on a slot, and claims given back. -/
namespace ScreenPreview.Stream

structure RateLimit where
  spacing : Nat
  lastAccepted : Option Int := none
  deriving DecidableEq, Repr

namespace RateLimit

def tooSoon (r : RateLimit) (now : Int) : Bool :=
  match r.lastAccepted with
  | some last => elapsed last now < r.spacing
  | none => false

def accept (r : RateLimit) (now : Int) : RateLimit := { r with lastAccepted := some now }

/-- Claim the slot at `now`. Gives the holder of the slot before that, to be handed to `release`,
or `none` if the frame comes too soon. -/
def reserve (r : RateLimit) (now : Int) : Option (Option Int × RateLimit) :=
  if r.tooSoon now then none else some (r.lastAccepted, r.accept now)

/-- Give back the slot that was claimed at `reserved`, unless a newer claim holds it. -/
def release (r : RateLimit) (reserved : Int) (previous : Option Int) : RateLimit :=
  if r.lastAccepted = some reserved then { r with lastAccepted := previous } else r

theorem tooSoon_of_spacing_zero (r : RateLimit) (now : Int) (free : r.spacing = 0) :
    r.tooSoon now = false := by
  unfold tooSoon
  cases r.lastAccepted <;> simp [free]

end RateLimit

end ScreenPreview.Stream
