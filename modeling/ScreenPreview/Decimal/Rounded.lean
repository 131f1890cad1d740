import ScreenPreview.Decimal.Binary64

/-! A double with a fixed number of decimal places, rounded from its exact value. -/
namespace ScreenPreview.Decimal

def oneDecimal (x : Float) : String :=
  let (numerator, denominator) := (Dyadic.ofBits x.toBits).fraction
  let tenths := roundHalfEven (numerator * 10) denominator
  let sign := if isNegative x then "-" else ""
  s!"{sign}{tenths / 10}.{tenths % 10}"

end ScreenPreview.Decimal
