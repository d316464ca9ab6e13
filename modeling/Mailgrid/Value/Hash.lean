import Mailgrid.Value

/-!
# Hashes of values

A set has no order of its own: its members stand in the slots of a table, each
in the first free slot that its hash leads to, and are read from there. Only the
hashes of numbers are known, so a set of anything else keeps the order in which
it was given.
-/

namespace Mailgrid

namespace Hash

/-- The prime that hashes are taken modulo. Twice two to the sixtieth is one there. -/
def modulus : Nat := Nat.pow 2 61 - 1

/-- The hash of the size of a number, whose denominator is a power of two. -/
def ofRatio (r : Decimal.Ratio) : Nat :=
  r.num % modulus * Nat.pow 2 (60 - (Nat.log2 r.den + 60) % 61) % modulus

/-- A hash with its sign as a number of 64 bits. The one of minus one means something else. -/
def signed (isNegative : Bool) (size : Nat) : Nat :=
  let size := if isNegative && size == 1 then 2 else size
  if isNegative && size != 0 then Nat.pow 2 64 - size else size

/-- The hash of what is infinite. -/
def endless : Nat := 314159

def ofFloat? (x : Float) : Option Nat :=
  match Decimal.ratio? x with
  | some r => some (signed (Decimal.isNegative x) (ofRatio r))
  | none => if x.isNaN then none else some (signed (Decimal.isNegative x) endless)

def ofInt (n : Int) : Nat :=
  signed (decide (n < 0)) (n.natAbs % modulus)

def ofValue? : Value → Option Nat
  | .bool b => some (ofInt (if b then 1 else 0))
  | .int n => some (ofInt n)
  | .float x => ofFloat? x
  | _ => none

-- ---------------------------------------------------------------------------
-- Slots

abbrev Slots := Array (Option Value)

/-- How many slots behind the first are tried in a row, if there are so many. -/
def rowLength : Nat := 9

/-- The first free slot from `start` on; `rest` is the part of the hash that has not counted yet. -/
def freeSlot (slots : Slots) (fuel start rest : Nat) : Nat :=
  let row := if start + rowLength < slots.size then rowLength + 1 else 1
  match fuel, (List.range row).find? fun i => (slots[start + i]?.join).isNone with
  | _, some i => start + i
  | 0, none => start
  | fuel + 1, none =>
    freeSlot slots fuel ((start * 5 + 1 + rest / 32) % slots.size) (rest / 32)

def Slots.place (slots : Slots) (hash : Nat) (v : Value) : Slots :=
  slots.setIfInBounds (freeSlot slots (2 * slots.size + 16) (hash % slots.size) hash) (some v)

/-- How many slots so many members get: eight, or the first power of two beyond twice their number
when there are five or more. -/
def slotCount (members : Nat) : Nat :=
  if members < 5 then 8 else Nat.pow 2 (Nat.log2 (2 * members) + 1)

/-- The members of a set in the order of their slots. -/
def ordered (members : List Value) : List Value :=
  match members.mapM fun v => (ofValue? v).map (·, v) with
  | none => members
  | some hashed =>
    let empty : Slots := Array.replicate (slotCount members.length) none
    (hashed.foldl (fun slots (hash, v) => slots.place hash v) empty).toList.filterMap id

end Hash

end Mailgrid
