/-!
# Nearest binary numbers

The binary number nearest to a fraction. Of two that are equally near the one
with an even significand counts, and what is too large is infinite. All is done
in whole numbers until the bits are put together.
-/

namespace Mailgrid.Decimal

/-- The whole number nearest to `num / den`, of two equally near ones the even one. -/
def roundDiv (num den : Nat) : Nat :=
  let quotient := num / den
  let rest := num % den
  if 2 * rest < den then quotient
  else if den < 2 * rest then quotient + 1
  else quotient + quotient % 2

/-- How many places the point of `num / den` moves to the right in base two, or to the left if
negative, to make it a significand of 53 digits, unless that is more than there are places. -/
def placesFor (num den : Nat) : Int :=
  let places : Int := 52 + Nat.log2 den - Nat.log2 num
  let isSmall := num * Nat.pow 2 places.toNat < Nat.pow 2 52 * den * Nat.pow 2 (-places).toNat
  min 1074 (if isSmall then places + 1 else places)

/-- The bits of the number nearest to a fraction. -/
def nearestBits (num den : Nat) : Nat :=
  if num = 0 then 0
  else
    let places := placesFor num den
    let significand := roundDiv (num * Nat.pow 2 places.toNat) (den * Nat.pow 2 (-places).toNat)
    min (2047 * Nat.pow 2 52) ((1075 - places).toNat * Nat.pow 2 52 + significand - Nat.pow 2 52)

def nearest (num den : Nat) : Float :=
  Float.ofBits (UInt64.ofNat (nearestBits num den))

/-- The number nearest to a whole one. -/
def ofInt (n : Int) : Float :=
  if n < 0 then -nearest n.natAbs 1 else nearest n.natAbs 1

/-- The size of a finite number as a fraction. -/
structure Ratio where
  num : Nat
  den : Nat

/-- The size of a number, if that is finite. -/
def ratio? (x : Float) : Option Ratio :=
  let bits := x.toBits.toNat
  let exponent := bits / Nat.pow 2 52 % Nat.pow 2 11
  let significand := bits % Nat.pow 2 52 + if exponent = 0 then 0 else Nat.pow 2 52
  if exponent = 2047 then none
  else some ⟨significand * Nat.pow 2 (exponent - 1075), Nat.pow 2 (1075 - max 1 exponent)⟩

/-- Has a number the sign that makes it negative? -/
def isNegative (x : Float) : Bool :=
  x.toBits.toNat / Nat.pow 2 63 == 1

/-- The whole number that a binary one is, if it is one. -/
def whole? (x : Float) : Option Int := do
  let size ← ratio? x
  guard (size.num % size.den = 0)
  let whole := size.num / size.den
  return if isNegative x then -(whole : Int) else whole

end Mailgrid.Decimal
