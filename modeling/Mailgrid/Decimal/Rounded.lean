import Mailgrid.Decimal.Digits
import Mailgrid.Decimal.Nearest

/-!
# Rounded decimals

The decimal nearest to a fraction that has so many digits behind its point, or
so many digits in all. Of two that are equally near the even one counts.
-/

namespace Mailgrid.Decimal

/-- Rounded to digits behind the point. -/
def Ratio.toPlaces (r : Ratio) (places : Nat) : Digits :=
  Digits.ofScaled (roundDiv (r.num * Nat.pow 10 places) r.den) places

/-- The power of ten of the first digit of a fraction that is not nought. -/
def Ratio.magnitude (r : Ratio) : Int :=
  if r.den ≤ r.num then digitCount (r.num / r.den) - 1
  else -(digitCount ((r.den - 1) / r.num) : Int)

/-- Rounded to so many digits. -/
def Ratio.toCount (r : Ratio) (count : Nat) : Digits :=
  let places : Int := count - 1 - r.magnitude
  if r.num = 0 then Digits.nought
  else
    Digits.ofScaled
      (roundDiv (r.num * Nat.pow 10 places.toNat) (r.den * Nat.pow 10 (-places).toNat)) places

end Mailgrid.Decimal
