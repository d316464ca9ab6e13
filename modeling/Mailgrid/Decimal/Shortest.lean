import Mailgrid.Decimal.Digits
import Mailgrid.Decimal.Nearest

/-!
# Shortest decimals

The decimal with the fewest digits that reads back as a given binary number,
and of several such the nearest to it. A finite number is a whole significand
times a power of two; the decimals that read back as it fill an interval around
it, whose ends belong to it when the significand is even. All is done in whole
numbers.
-/

namespace Mailgrid.Decimal

/-- A positive binary number and half the distance to its neighbours: `value`, `below` and
`above` are counted in units of `1 / unit`. -/
structure Interval where
  value : Nat
  below : Nat
  above : Nat
  unit : Nat
  closed : Bool

/-- The interval of the number whose fraction and exponent are stored in these fields, counted in
quarters of its last place. -/
def Interval.ofFields (fraction exponent : Nat) : Interval :=
  let significand := if exponent = 0 then fraction else fraction + Nat.pow 2 52
  let power := if exponent = 0 then 1 else exponent
  let narrow := fraction == 0 && 1 < exponent
  let scale := Nat.pow 2 (power - 1075)
  let unit := 4 * Nat.pow 2 (1075 - power)
  ⟨4 * significand * scale, (if narrow then 1 else 2) * scale, 2 * scale, unit,
    significand % 2 == 0⟩

/-- Is `num / den` in the interval? -/
def Interval.holds (i : Interval) (num den : Nat) : Bool :=
  let point := num * i.unit
  let low := (i.value - i.below) * den
  let high := (i.value + i.above) * den
  if i.closed then low ≤ point && point ≤ high else low < point && point < high

/-- A power of ten as a fraction. -/
def tenTo (e : Int) : Nat × Nat :=
  (Nat.pow 10 e.toNat, Nat.pow 10 (-e).toNat)

/-- The grid of multiples of ten to the `e`: the neighbour of the value that is in the interval
and nearer to it, if one is. On a tie the even one counts. -/
def Interval.onGrid? (i : Interval) (e : Int) : Option Nat :=
  let (up, down) := tenTo e
  let lower := i.value * down / (i.unit * up)
  let inLower := i.holds (lower * up) down
  let inUpper := i.holds ((lower + 1) * up) down
  let toLower := i.value * down - lower * up * i.unit
  let toUpper := (lower + 1) * up * i.unit - i.value * down
  if inLower && inUpper then
    if toLower < toUpper || (toLower == toUpper && lower % 2 == 0) then some lower
    else some (lower + 1)
  else if inLower then some lower
  else if inUpper then some (lower + 1)
  else none

/-- Tries ever finer grids, starting at ten to the `e`. -/
def Interval.search (i : Interval) : Nat → Int → Nat × Int
  | 0, e => ((i.onGrid? e).getD 0, e)
  | fuel + 1, e =>
    match i.onGrid? e with
    | some n => if n = 0 then i.search fuel (e - 1) else (n, e)
    | none => i.search fuel (e - 1)

/-- The shortest digits of a positive number. -/
def Interval.shortest (i : Interval) : Digits :=
  let whole := i.value / i.unit
  let start : Int := if whole = 0 then 0 else digitCount whole
  let (n, e) := i.search (if whole = 0 then 400 else 20) start
  Digits.ofScaled n (-e)

/-- The shortest digits of the size of a finite number. -/
def shortest (x : Float) : Digits :=
  let bits := x.toBits.toNat
  let exponent := bits / Nat.pow 2 52 % Nat.pow 2 11
  let fraction := bits % Nat.pow 2 52
  if exponent = 0 ∧ fraction = 0 then Digits.nought
  else (Interval.ofFields fraction exponent).shortest

/-- A number as the shortest decimal that reads back as it. What is no number has no sign. -/
def ofFloat (x : Float) : String :=
  let sign := if isNegative x then "-" else ""
  if (ratio? x).isSome then sign ++ String.ofList ((shortest x).pointed Digits.largestPlain false)
  else if x.isNaN then "nan"
  else sign ++ "inf"

end Mailgrid.Decimal
