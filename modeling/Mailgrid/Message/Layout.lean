import Mailgrid.Failure
import Mailgrid.Text.Digit

/-!
# Layouts

How a field of a message is laid out: where its value stands in how much room,
what fills the rest, and for numbers their sign, their digits and how they are
grouped.
-/

namespace Mailgrid.Message

/-- Where a value stands in its room. With `inner` the rest is filled behind the sign. -/
inductive Side where
  | left
  | right
  | middle
  | inner
  deriving DecidableEq

def Side.ofSign? (c : Char) : Option Side :=
  if c = '<' then some .left
  else if c = '>' then some .right
  else if c = '^' then some .middle
  else if c = '=' then some .inner
  else none

structure Layout where
  side : Side
  fill : Char
  /-- A plus or a blank for numbers that are not negative; a minus changes nothing. -/
  sign : Option Char
  /-- Is a nought written without a sign? -/
  dropsSign : Bool
  /-- Are bases told, and points kept at the end? -/
  isExplicit : Bool
  width : Option Nat
  /-- What stands between groups of digits. -/
  separator : Option Char
  places : Option Nat
  kind : Option Char

namespace Layout

/-- The greatest number that a layout may hold, and the greatest index of a field. -/
def maxNumber : Nat := Nat.pow 2 63 - 1

/-- The number that a text starts with, if it does with a digit. -/
def number? (s : List Char) : Except Failure (Option Nat × List Char) :=
  let digits := s.takeWhile Text.isDigit
  let value := digits.foldl (fun n c => 10 * n + (Text.digitValue? c).getD 0) 0
  if maxNumber < value then throw .malformedPlaceholder
  else pure (if digits.isEmpty then none else some value, s.drop digits.length)

/-- A fill, if the sign of a side stands behind it, and the side. -/
def takeSide (s : List Char) : Option Char × Option Side × List Char :=
  let plain : Option Char × Option Side × List Char :=
    match s with
    | c :: rest => match Side.ofSign? c with
      | some side => (none, some side, rest)
      | none => (none, none, s)
    | [] => (none, none, [])
  match s with
  | fill :: c :: rest => match Side.ofSign? c with
    | some side => (some fill, some side, rest)
    | none => plain
  | _ => plain

def takeSign : List Char → Option Char × List Char
  | '+' :: rest => (some '+', rest)
  | ' ' :: rest => (some ' ', rest)
  | '-' :: rest => (some '-', rest)
  | s => (none, s)

/-- Drops a character that a text starts with, and tells whether it does. -/
def takeMark (mark : Char) : List Char → Bool × List Char
  | c :: rest => if c = mark then (true, rest) else (false, c :: rest)
  | [] => (false, [])

/-- What stands between groups; two such signs are one too many. -/
def takeSeparator (s : List Char) : Except Failure (Option Char × List Char) :=
  match s with
  | ',' :: '_' :: _ | '_' :: ',' :: _ => throw .malformedPlaceholder
  | ',' :: rest => pure (some ',', rest)
  | '_' :: rest => pure (some '_', rest)
  | s => pure (none, s)

/-- How many places are asked for behind a point; a point alone is none. -/
def takePlaces (s : List Char) : Except Failure (Option Nat × List Char) := do
  match s with
  | '.' :: rest =>
    match ← number? rest with
    | (none, _) => throw .malformedPlaceholder
    | found => pure found
  | s => pure (none, s)

/-- How many digits a group has, for numbers of this kind. -/
def groupOf? (separator : Char) (kind : Option Char) : Option Nat :=
  match kind with
  | none => some 3
  | some kind =>
    if ['d', 'e', 'f', 'g', 'E', 'G', '%', 'F'].contains kind then some 3
    else if separator = '_' ∧ ['b', 'o', 'x', 'X'].contains kind = true then some 4
    else none

/-- The layout that a text describes, for a kind of value that usually stands on a side. -/
def ofText (usual : Side) (usualKind : Option Char) (s : List Char) : Except Failure Layout := do
  let (fill, side, s) := takeSide s
  let (sign, s) := takeSign s
  let (dropsSign, s) := takeMark 'z' s
  let (isExplicit, s) := takeMark '#' s
  let (isZeroed, s) := if fill.isNone then takeMark '0' s else (false, s)
  let (width, s) ← number? s
  let (separator, s) ← takeSeparator s
  let (places, s) ← takePlaces s
  let kind ← match s with
    | [] => pure usualKind
    | [kind] => pure (some kind)
    | _ => throw .malformedPlaceholder
  if separator.any fun c => (groupOf? c kind).isNone then throw .malformedPlaceholder
  let inner := isZeroed && side.isNone && usual = .right
  return {
    side := if inner then .inner else side.getD usual
    fill := fill.getD (if isZeroed then '0' else ' ')
    sign, dropsSign, isExplicit, width, separator, places, kind }

/-- The room that is left beside so many characters. No text is as wide as `widest`. -/
def room (l : Layout) (length : Nat) : Except Failure Nat :=
  let widest := Nat.pow 10 9
  match l.width with
  | none => pure 0
  | some width => if widest ≤ width then throw .tooWide else pure (width - length)

def filler (l : Layout) (room : Nat) : List Char :=
  List.replicate room l.fill

/-- A text in its room. Nothing of it stands before the filling that goes inside. -/
def text (l : Layout) (s : List Char) : Except Failure (List Char) := do
  if l.sign.isSome || l.dropsSign || l.isExplicit || l.side = .inner || l.kind != some 's' then
    throw .malformedPlaceholder
  let s := match l.places with
    | some places => s.take places
    | none => s
  let room ← l.room s.length
  return match l.side with
    | .left | .inner => s ++ l.filler room
    | .right => l.filler room ++ s
    | .middle => l.filler (room / 2) ++ s ++ l.filler (room - room / 2)

-- ---------------------------------------------------------------------------
-- Numbers

/-- The parts of a number: its sign, what tells its base, the digits before its point, and what
stands behind them. -/
structure Parts where
  isNegative : Bool
  base : List Char
  digits : List Char
  rest : List Char

/-- Digits in groups, last digit first. Noughts are put before them until they are `least` wide, of
which `isFirst` tells no group was written yet. -/
def grouped (separator : Char) (size fuel : Nat) (digits : List Char) (least : Int) : List Char :=
  match fuel with
  | 0 => digits
  | fuel + 1 =>
    let length := min size (max (max digits.length least.toNat) 1)
    let group := digits.take length ++ List.replicate (length - digits.length) '0'
    let rest := digits.drop length
    let least := least - length
    if rest.isEmpty ∧ least ≤ 0 then group
    else group ++ separator :: grouped separator size fuel rest (least - 1)

/-- The digits of a number, at least so wide, with what stands between their groups. -/
def spread (l : Layout) (digits : List Char) (least : Int) : List Char :=
  match l.separator with
  | none => List.replicate (least.toNat - digits.length) '0' ++ digits
  | some c =>
    let size := (groupOf? c l.kind).getD 3
    (grouped c size (digits.length + least.toNat + 1) digits.reverse least).reverse

/-- A number in its room. -/
def number (l : Layout) (p : Parts) : Except Failure (List Char) := do
  let sign :=
    if p.isNegative then ['-']
    else match l.sign with
      | some '-' | none => []
      | some c => [c]
  let fixed := sign.length + p.base.length + p.rest.length
  let _ ← l.room 0
  let least : Int := if l.fill = '0' ∧ l.side = .inner then l.width.getD 0 - fixed else 0
  let digits := if p.digits.isEmpty then [] else l.spread p.digits least
  let room ← l.room (fixed + digits.length)
  let inside := p.base ++ (if l.side = .inner then l.filler room else []) ++ digits ++ p.rest
  return match l.side with
    | .left => sign ++ inside ++ l.filler room
    | .right => l.filler room ++ sign ++ inside
    | .middle => l.filler (room / 2) ++ sign ++ inside ++ l.filler (room - room / 2)
    | .inner => sign ++ inside

end Layout

end Mailgrid.Message
