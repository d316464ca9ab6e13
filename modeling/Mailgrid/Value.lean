import Mailgrid.Calendar
import Mailgrid.Decimal.FloorDiv
import Mailgrid.Decimal.Nearest
import Mailgrid.Decimal.Shortest
import Mailgrid.Failure
import Mailgrid.Table
import Mailgrid.Text.Bytes
import Mailgrid.Text.Integer

/-!
# Untyped values

Options come as data without a schema: from the caller of the engine, or from
an options file. A mapping keeps the order of its keys, each of which may
itself be any value that can be compared; so does a set of its members. A list
or a mapping may stand inside itself.
-/

namespace Mailgrid

inductive Value where
  | null
  | bool (b : Bool)
  | int (n : Int)
  | float (x : Float)
  /-- Of characters. Half of a surrogate pair alone, which no encoding has, stands in no text. -/
  | text (s : String)
  | bytes (content : List UInt8)
  | date (d : Date)
  | moment (m : Moment)
  | list (items : List Value)
  | pair (first second : Value)
  | set (members : List Value)
  | mapping (entries : List (Value × Value))
  /-- A list or a mapping at a place inside itself. -/
  | again (whole : Value)

namespace Value

/-- Nothing, nought and whatever is empty count as not given. -/
def isGiven : Value → Bool
  | null => false
  | bool b => b
  | int n => n != 0
  | float x => x != 0
  | text s => !s.isEmpty
  | bytes content => !content.isEmpty
  | list items => !items.isEmpty
  | set members => !members.isEmpty
  | mapping entries => !entries.isEmpty
  | date _ | moment _ | pair _ _ | again _ => true

/-- A value apart from where it stands. -/
def itself : Value → Value
  | again whole => whole
  | v => v

mutual
/-- A value as it is shown inside another one. -/
def inner : Value → String
  | null => "None"
  | bool b => if b then "True" else "False"
  | int n => toString n
  | float x => Decimal.ofFloat x
  | text s => Text.quotedString s
  | bytes content => Text.quotedBytes content
  | date d => d.inner
  | moment m => m.inner
  | list items => Text.bracketed (innerItems items)
  | pair a b => "(" ++ a.inner ++ ", " ++ b.inner ++ ")"
  | set [] => "set()"
  | set (v :: rest) => "\x7b" ++ ", ".intercalate (v.inner :: innerItems rest) ++ "\x7d"
  | mapping entries => "\x7b" ++ ", ".intercalate (innerEntries entries) ++ "\x7d"
  | again (mapping _) => "\x7b...\x7d"
  | again _ => "[...]"
def innerItems : List Value → List String
  | [] => []
  | v :: rest => v.inner :: innerItems rest
def innerEntries : List (Value × Value) → List String
  | [] => []
  | (k, v) :: rest => (k.inner ++ ": " ++ v.inner) :: innerEntries rest
end

/-- A value as it reads in a text. -/
def shown : Value → String
  | text s => s
  | date d => d.shown
  | moment m => m.shown
  | v => v.inner

mutual
/-- Can a value be shown? A number of too many digits cannot. -/
def isShowable : Value → Bool
  | int n => n.natAbs < Nat.pow 10 Text.maxDigits
  | list items => areShowable items
  | set members => areShowable members
  | pair a b => a.isShowable && b.isShowable
  | mapping entries => entriesShowable entries
  | _ => true
def areShowable : List Value → Bool
  | [] => true
  | v :: rest => v.isShowable && areShowable rest
def entriesShowable : List (Value × Value) → Bool
  | [] => true
  | (k, v) :: rest => k.isShowable && v.isShowable && entriesShowable rest
end

/-- The whole number that a value stands for as a key. -/
def whole? : Value → Option Int
  | bool b => some (if b then 1 else 0)
  | int n => some n
  | float x => Decimal.whole? x
  | _ => none

/-- Do two values count as the same key? Numbers do if they are equal. -/
def sameKey : Value → Value → Bool
  | null, null => true
  | text a, text b => a == b
  | bytes a, bytes b => a == b
  | date a, date b => a == b
  | moment a, moment b => a.same b
  | pair a b, pair c d => sameKey a c && sameKey b d
  | a, b =>
    match a.whole?, b.whole?, a, b with
    | some m, some n, _, _ => m == n
    | none, none, float x, float y => x == y
    | _, _, _, _ => false

/-- Values are compared as keys. -/
instance : BEq Value := ⟨sameKey⟩

/-- Lists, sets and mappings cannot be keys. -/
def isKey : Value → Bool
  | list _ | set _ | mapping _ | again _ => false
  | pair a b => a.isKey && b.isKey
  | _ => true

/-- The entry that two values make. -/
def entry (k v : Value) : Except Failure (Value × Value) :=
  if k.isKey then pure (k, v) else throw .unusableKey

/-- The entry that a value stands for as a pair: two items, two keys, two characters or two
bytes. -/
def pair? : Value → Except Failure (Value × Value)
  | list [k, v] | set [k, v] | mapping [(k, _), (v, _)] | pair k v => entry k v
  | bytes [k, v] => pure (int k.toNat, int v.toNat)
  | text s =>
    match s.toList with
    | [k, v] => pure (text (String.singleton k), text (String.singleton v))
    | _ => throw .pairOfWrongLength
  | again v => v.pair?
  | list _ | set _ | mapping _ | bytes _ => throw .pairOfWrongLength
  | null | bool _ | int _ | float _ | date _ | moment _ => throw .notPairs

/-- The entries of a value that stands for a mapping: its own, or those of a list of pairs. -/
def entries? : Value → Except Failure (List (Value × Value))
  | mapping entries => pure entries
  | list items | set items => return Table.ofList (← items.mapM pair?)
  | pair a b => return Table.ofList [← a.pair?, ← b.pair?]
  | text s => if s.isEmpty then pure [] else throw .pairOfWrongLength
  | bytes content => if content.isEmpty then pure [] else throw .notPairs
  | again v => v.entries?
  | null | bool _ | int _ | float _ | date _ | moment _ => throw .notPairs

/-- A width divided among so many parts, rounded down. -/
def floorDiv (width : Value) (parts : Nat) : Except Failure Value :=
  match width with
  | int n => pure (int (Int.fdiv n parts))
  | bool b => pure (int (Int.fdiv (if b then 1 else 0) parts))
  | float x => pure (float (Decimal.floorDiv x parts))
  | _ => throw .widthNotNumber

end Value

end Mailgrid
