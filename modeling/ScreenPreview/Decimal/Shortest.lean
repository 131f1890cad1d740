import ScreenPreview.Decimal.Binary64

/-!
The fewest decimal digits that read back as a double: for one digit, two digits and so on, the two
decimals next to the double are tried against the interval of the reals that are rounded to it.
-/
namespace ScreenPreview.Decimal

structure Scaled where
  digits : Nat
  exponent : Int
  deriving DecidableEq, Repr

/-- The reals that read back as a double, as whole multiples of `2 ^ exponent`. -/
structure Interval where
  low : Nat
  middle : Nat
  high : Nat
  exponent : Int
  closed : Bool
  deriving DecidableEq, Repr

/-- The interval of a positive double. Below a power of two the neighbour is half as far. -/
def Dyadic.interval (d : Dyadic) : Interval :=
  let below := if d.mantissa = Dyadic.leastNormal ∧ Dyadic.leastExponent < d.exponent then 1 else 2
  ⟨4 * d.mantissa - below, 4 * d.mantissa, 4 * d.mantissa + 2, d.exponent - 2,
    d.mantissa % 2 = 0⟩

def digitCount (n : Nat) : Nat := (Nat.toDigits 10 n).length

def decade (numerator denominator : Nat) : Int :=
  if denominator ≤ numerator then (digitCount (numerator / denominator) : Int) - 1
  else -(digitCount ((denominator + numerator - 1) / numerator - 1) : Int)

def Interval.holds (i : Interval) (n : Nat) (power : Int) : Bool :=
  let value := n * tenTo power.toNat * twoTo (-i.exponent).toNat
  let scale := tenTo (-power).toNat * twoTo i.exponent.toNat
  if i.closed then i.low * scale ≤ value && value ≤ i.high * scale
  else i.low * scale < value && value < i.high * scale

/-- The two decimals next to a double among the multiples of `10 ^ power`, tried against its
interval; of two hits the nearer, and of two as near the even one. -/
def Interval.neighbour? (i : Interval) (power : Int) : Option Nat :=
  let numerator := i.middle * twoTo i.exponent.toNat * tenTo (-power).toNat
  let denominator := twoTo (-i.exponent).toNat * tenTo power.toNat
  let below := numerator / denominator
  match i.holds below power, i.holds (below + 1) power with
  | true, true => some (roundHalfEven numerator denominator)
  | true, false => some below
  | false, true => some (below + 1)
  | false, false => none

def Interval.search (i : Interval) (first : Int) : Nat → Nat → Scaled
  | 0, count => ⟨i.middle, first + 1 - count⟩
  | more + 1, count =>
    match i.neighbour? (first + 1 - count) with
    | some n => ⟨n, first + 1 - count⟩
    | none => i.search first more (count + 1)

def Scaled.normal (s : Scaled) : Scaled :=
  if s.digits = 10 then ⟨1, s.exponent + 1⟩ else s

def shortest (d : Dyadic) : Scaled :=
  let (numerator, denominator) := d.fraction
  (d.interval.search (decade numerator denominator) 17 1).normal

end ScreenPreview.Decimal
