import Mailgrid.Decimal.Rounded
import Mailgrid.Decimal.Shortest
import Mailgrid.Message.Layout

/-!
# Numbers in messages

How a number is written in a layout: whole numbers to a base or as a character,
numbers with a point by a count of digits or of places behind the point.
-/

namespace Mailgrid.Message

namespace Layout

def upper (s : List Char) : List Char :=
  s.map Char.toUpper

-- ---------------------------------------------------------------------------
-- Numbers with a point

/-- The size of a finite number by the kind that is asked for. Without one it is written by its
shortest digits, unless their count is asked for. -/
def finite (l : Layout) (kind : Option Char) (x : Float) (size : Decimal.Ratio) : List Char :=
  match kind, l.places with
  | none, none => (Decimal.shortest x).pointed Decimal.Digits.largestPlain l.isExplicit
  | none, some places =>
    let count := max places 1
    let d := size.toCount count
    let isScientific := d.isFar (count - 1)
    let stop := if l.isExplicit then count else d.count
    d.written isScientific (d.pointedStop isScientific stop) l.isExplicit
  | some kind, places =>
    let places := places.getD 6
    if kind = 'f' then
      let d := size.toPlaces places
      d.written false (d.point + places) l.isExplicit
    else if kind = 'e' then
      (size.toCount (places + 1)).written true (places + 1) l.isExplicit
    else
      let count := max places 1
      let d := size.toCount count
      d.written (d.isFar count) (if l.isExplicit then count else d.count) l.isExplicit

/-- Is nothing but nought written? -/
def isNought (s : List Char) : Bool :=
  (s.takeWhile (· != 'e')).all fun c => c == '0' || c == '.'

/-- The kinds of numbers with a point. One of them counts hundredths. -/
def pointKinds : List Char :=
  ['e', 'E', 'f', 'F', 'g', 'G', 'n', '%']

/-- More places than these cannot be asked for. -/
def maxPlaces : Nat := Nat.pow 2 31 - 1

def float (l : Layout) (x : Float) : Except Failure (List Char) := do
  if l.kind.any (!pointKinds.contains ·) || l.places.any (maxPlaces < ·) then
    throw .malformedPlaceholder
  let hundredths := l.kind = some '%'
  let x := if hundredths then x * 100 else x
  let kind := l.kind.map fun c => if c = '%' then 'f' else if c = 'n' then 'g' else c.toLower
  let body := match Decimal.ratio? x with
    | some size => l.finite kind x size
    | none => if x.isNaN then ['n', 'a', 'n'] else ['i', 'n', 'f']
  let isNegative := Decimal.isNegative x && !x.isNaN && !(l.dropsSign && isNought body)
  let body := if l.kind.any Char.isUpper then upper body else body
  let body := if hundredths then body ++ ['%'] else body
  let digits := body.takeWhile Char.isDigit
  l.number ⟨isNegative, [], digits, body.drop digits.length⟩

-- ---------------------------------------------------------------------------
-- Whole numbers

/-- The base of a kind of whole number. -/
def base? (kind : Char) : Option Nat :=
  if kind = 'd' ∨ kind = 'n' then some 10
  else if kind = 'b' then some 2
  else if kind = 'o' then some 8
  else if kind = 'x' ∨ kind = 'X' then some 16
  else none

/-- A character by its number. -/
def character (l : Layout) (n : Int) : Except Failure (List Char) := do
  if l.sign.isSome || l.isExplicit then throw .malformedPlaceholder
  if n < 0 ∨ 0x110000 ≤ n then throw .characterTooLarge
  l.number ⟨false, [], [], [Char.ofNat n.toNat]⟩

/-- A whole number to a base, which a nought and the kind may tell. -/
def based (l : Layout) (kind : Char) (base : Nat) (n : Int) : Except Failure (List Char) :=
  let digits := Nat.toDigits base n.natAbs
  let told := if l.isExplicit && base != 10 then ['0', kind] else []
  l.number ⟨decide (n < 0), told, if kind = 'X' then upper digits else digits, []⟩

def int (l : Layout) (n : Int) : Except Failure (List Char) := do
  let kind := l.kind.getD 'd'
  if kind != 'n' && pointKinds.contains kind then
    let x := Decimal.ofInt n
    if (Decimal.ratio? x).isNone then throw .numberTooLarge
    return ← l.float x
  if l.places.isSome || l.dropsSign then throw .malformedPlaceholder
  if kind = 'c' then return ← l.character n
  match base? kind with
  | some base => l.based kind base n
  | none => throw .malformedPlaceholder

end Layout

end Mailgrid.Message
