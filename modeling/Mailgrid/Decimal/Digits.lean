/-!
# Decimal digits of a number

A number as its digits and where its point stands, and the two ways of writing
it: with all places up to the point, or with one digit before the point and a
power of ten.
-/

namespace Mailgrid.Decimal

/-- The digits as one number, and how many places the point stands to the right of the first
digit, or to the left if negative. -/
structure Digits where
  digits : Nat
  count : Nat
  point : Int
  deriving DecidableEq

def digitCount (n : Nat) : Nat :=
  (Nat.toDigits 10 n).length

/-- The number without the noughts at its end, at most `fuel` of them. -/
def dropNoughts (n : Nat) : Nat → Nat
  | 0 => n
  | fuel + 1 => if n % 10 = 0 ∧ n ≠ 0 then dropNoughts (n / 10) fuel else n

namespace Digits

/-- Nought has one digit. -/
def nought : Digits := ⟨0, 1, 1⟩

/-- The digits of `n`, of which `places` stand behind the point, without noughts at the end. If it
is nought there are none. -/
def ofScaled (n : Nat) (places : Int) : Digits :=
  let count := digitCount n
  let kept := dropNoughts n count
  if n = 0 then ⟨0, 0, -places⟩ else ⟨kept, digitCount kept, count - places⟩

def chars (d : Digits) : List Char :=
  if d.count = 0 then [] else Nat.toDigits 10 d.digits

/-- The digits from one place to another, counted from the first. There are noughts all around. -/
def between (d : Digits) (start stop : Int) : List Char :=
  List.replicate (min stop 0 - start).toNat '0' ++
    (d.chars.take stop.toNat).drop start.toNat ++
    List.replicate (stop - max start d.count).toNat '0'

/-- An exponent with its sign and two digits at least. -/
def exponentText (e : Int) : List Char :=
  let digits := Nat.toDigits 10 e.natAbs
  (if e < 0 then '-' else '+') :: (if digits.length < 2 then '0' :: digits else digits)

/-- The number up to the place `stop`, but at least up to its point, which is left out at the end
unless `keepsPoint` says so. With a power of ten the point stands behind the first digit. -/
def written (d : Digits) (isScientific : Bool) (stop : Int) (keepsPoint : Bool) : List Char :=
  let point := if isScientific then 1 else d.point
  let start := if point ≤ 0 then point - 1 else 0
  let fraction := d.between point (max point stop)
  d.between start point ++
    (if fraction.isEmpty && !keepsPoint then [] else '.' :: fraction) ++
    (if isScientific then 'e' :: exponentText (d.point - 1) else [])

/-- Is a power of ten needed, because the point stands far off? -/
def isFar (d : Digits) (largest : Int) : Bool :=
  d.point ≤ -4 || largest < d.point

/-- The place up to which all digits are written, and one behind the point if there is no power of
ten. -/
def pointedStop (d : Digits) (isScientific : Bool) (stop : Int) : Int :=
  if isScientific then stop else max stop (d.point + 1)

/-- The number with a point or a power of ten, which it has when the point stands more than
`largest` places behind the first digit. -/
def pointed (d : Digits) (largest : Int) (keepsPoint : Bool) : List Char :=
  let isScientific := d.isFar largest
  d.written isScientific (d.pointedStop isScientific d.count) keepsPoint

/-- At most sixteen places stand before the point of a plain number. -/
def largestPlain : Int := 16

end Digits

end Mailgrid.Decimal
