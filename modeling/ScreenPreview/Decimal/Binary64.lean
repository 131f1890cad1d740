/-! Doubles as dyadic numbers, `mantissa * 2 ^ exponent`. -/
namespace ScreenPreview.Decimal

def twoTo (n : Nat) : Nat := Nat.pow 2 n

def tenTo (n : Nat) : Nat := Nat.pow 10 n

structure Dyadic where
  mantissa : Nat
  exponent : Int
  deriving DecidableEq, Repr

namespace Dyadic

def leastExponent : Int := -1074

def leastNormal : Nat := 0x10000000000000

def fraction (d : Dyadic) : Nat × Nat :=
  (d.mantissa * twoTo d.exponent.toNat, twoTo (-d.exponent).toNat)

def ofBits (bits : UInt64) : Dyadic :=
  let field := (bits >>> 52).toNat % 2048
  let digits := bits.toNat % leastNormal
  if field = 0 then ⟨digits, leastExponent⟩ else ⟨leastNormal + digits, (field : Int) - 1075⟩

end Dyadic

def roundHalfEven (numerator denominator : Nat) : Nat :=
  let quotient := numerator / denominator
  let twice := 2 * (numerator % denominator)
  if denominator < twice || (twice == denominator && quotient % 2 == 1) then quotient + 1
  else quotient

/-- The largest exponent at which a fraction still has 53 binary digits before the point, but none
below the least exponent, which zero has too. -/
def exponentOf (numerator denominator : Nat) : Int :=
  if numerator = 0 then Dyadic.leastExponent else
  let guess : Int := (numerator.log2 : Int) - (denominator.log2 : Int) - 53
  let whole := numerator * twoTo (-guess).toNat / (denominator * twoTo guess.toNat)
  max Dyadic.leastExponent (if 2 * Dyadic.leastNormal ≤ whole then guess + 1 else guess)

/-- The bits of the double nearest to a fraction, a half going to the even one; those of infinity
from the upper end of the range on. A mantissa that rounds up to the next power of two carries
into the exponent field by itself. -/
def nearestBits (numerator denominator : Nat) : UInt64 :=
  let exponent := exponentOf numerator denominator
  let mantissa := roundHalfEven (numerator * twoTo (-exponent).toNat)
    (denominator * twoTo exponent.toNat)
  (min ((exponent + 1074).toNat * Dyadic.leastNormal + mantissa) 0x7FF0000000000000).toUInt64

def ofNat (n : Nat) : Float := Float.ofBits (nearestBits n 1)

/-- The double nearest to `digits * 10 ^ power`. Far beyond both ends of the range of doubles it is
infinity or zero without further work. -/
def ofScaled (digits : Nat) (power : Int) : Float :=
  if digits = 0 ∨ power < -400 - (digits.log2 : Int) then 0
  else if 400 < power then Float.ofBits 0x7FF0000000000000
  else Float.ofBits (nearestBits (digits * tenTo power.toNat) (tenTo (-power).toNat))

def isNegative (x : Float) : Bool := x.toBits >>> 63 == 1

end ScreenPreview.Decimal
