/-!
# Division to the floor

A binary number divided by a whole one, rounded down. The remainder is exact,
so only the division of what is left of the number may round.
-/

namespace Mailgrid.Decimal

/-- The remainder of a division by `n`, with the sign of `x`. -/
def remainder (x : Float) (n : Nat) : Float :=
  let bits := x.toBits.toNat
  let exponent := bits / Nat.pow 2 52 % Nat.pow 2 11
  let fraction := bits % Nat.pow 2 52
  let significand := if exponent = 0 then fraction else fraction + Nat.pow 2 52
  let power := if exponent = 0 then 1 else exponent
  if exponent = 2047 then 0 / 0
  else
    let size :=
      if 1075 ≤ power then Float.ofNat (significand * Nat.pow 2 (power - 1075) % n)
      else (Float.ofNat (significand % (n * Nat.pow 2 (1075 - power)))).scaleB
        (Int.subNatNat power 1075)
    if x < 0 then -size else size

def floorDiv (x : Float) (n : Nat) : Float :=
  let mod := remainder x n
  let exact := (x - mod) / Float.ofNat n
  let quotient := if mod < 0 then exact - 1 else exact
  if quotient == 0 then 0
  else if 0.5 < quotient - quotient.floor then quotient.floor + 1
  else quotient.floor

end Mailgrid.Decimal
