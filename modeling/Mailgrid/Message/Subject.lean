import Mailgrid.Message.Layout
import Mailgrid.Value

/-!
# Subjects of fields

What a field of a message stands for: a value by its name, or a part of it,
which is reached by more names behind points or between brackets. The class of
a value is such a part, too.
-/

namespace Mailgrid

/-- The name of the class of a value. -/
def Value.className : Value → String
  | null => "NoneType"
  | bool _ => "bool"
  | int _ => "int"
  | float _ => "float"
  | text _ => "str"
  | bytes _ => "bytes"
  | date _ => "date"
  | moment _ => "datetime"
  | list _ => "list"
  | pair _ _ => "tuple"
  | set _ => "set"
  | mapping _ => "dict"
  | again whole => whole.className

namespace Message

inductive Subject where
  | value (v : Value)
  | «class» (name : String)

namespace Subject

def text (s : String) : Subject :=
  value (.text s)

def shown : Subject → String
  | value v => v.shown
  | «class» name => "<class '" ++ name ++ "'>"

/-- A subject as it is shown inside a list. -/
def inner : Subject → String
  | value v => v.inner
  | c => c.shown

-- ---------------------------------------------------------------------------
-- Parts

/-- A step to a part of a subject. -/
inductive Step where
  | named (name : List Char)
  | item (name : List Char)
  /-- A bracket that is not closed, or no bracket and no point. -/
  | broken

def isStepSign (c : Char) : Bool :=
  c == '.' || c == '['

/-- The steps that a text describes. -/
def steps (s : List Char) : List Step :=
  match s with
  | [] => []
  | '.' :: rest => .named (rest.takeWhile (!isStepSign ·)) :: steps (rest.dropWhile (!isStepSign ·))
  | '[' :: rest =>
    match _h : rest.dropWhile (· != ']') with
    | [] => [.broken]
    | _ :: after => .item (rest.takeWhile (· != ']')) :: steps after
  | _ => [.broken]
termination_by s.length
decreasing_by
  · exact Nat.lt_succ_of_le (List.dropWhile_sublist _).length_le
  · have := (List.dropWhile_sublist (l := rest) (· != ']')).length_le
    rw [_h] at this
    simp only [List.length_cons] at this ⊢
    omega

/-- The number that a name is, if it is one. -/
def index? (name : List Char) : Except Failure (Option Nat) := do
  match ← Layout.number? name with
  | (index, []) => pure index
  | _ => pure none

/-- A part of a whole number by name: it is a fraction with one for its other part. -/
def ofWhole? (n : Int) (name : String) : Option Value :=
  if name = "real" ∨ name = "numerator" then some (.int n)
  else if name = "imag" then some (.int 0)
  else if name = "denominator" then some (.int 1)
  else none

def partOfValue? (v : Value) (name : String) : Option Value :=
  match v with
  | .int n => ofWhole? n name
  | .bool b => ofWhole? (if b then 1 else 0) name
  | .float x =>
    if name = "real" then some (.float x) else if name = "imag" then some (.float 0) else none
  | _ => none

def partOfClass? (className name : String) : Option Value :=
  if name = "__name__" ∨ name = "__qualname__" then some (.text className)
  else if name = "__module__" then some (.text "builtins")
  else none

/-- A part of a subject by name. -/
def named (s : Subject) (name : String) : Except Failure Subject :=
  let part := match s with
    | value v => partOfValue? v name
    | «class» className => partOfClass? className name
  match part, s with
  | some v, _ => pure (value v)
  | none, value v => if name = "__class__" then pure («class» v.className) else throw .unknownPart
  | none, «class» _ => if name = "__class__" then pure («class» "type") else throw .unknownPart

/-- A part of a value by its number or its key. -/
def item (s : Subject) (name : String) (index : Option Nat) : Except Failure Subject :=
  let found (part : Option Subject) (f : Failure) : Except Failure Subject :=
    match part with
    | some s => pure s
    | none => throw f
  match s, index with
  | value (.list items), some i => found (items[i]?.map value) .missingItem
  | value (.text s), some i => found (s.toList[i]?.map fun c => text (String.singleton c)) .missingItem
  | value (.mapping entries), some i => found ((entries.lookup (.int i)).map value) .unknownField
  | value (.mapping entries), none => found ((entries.lookup (.text name)).map value) .unknownField
  | _, _ => throw .withoutItems

def step (s : Subject) : Step → Except Failure Subject
  | .broken => throw .malformedPlaceholder
  | .named name =>
    if name.isEmpty then throw .malformedPlaceholder else s.named (String.ofList name)
  | .item name => do
    let index ← index? name
    if name.isEmpty then throw .malformedPlaceholder
    s.item (String.ofList name) index

/-- What a name with steps behind it stands for. Values have names; none is told by its number. -/
def find (values : List (String × Value)) (path : List Char) : Except Failure Subject := do
  let name := path.takeWhile (!isStepSign ·)
  if (← index? name).isSome || name.isEmpty then throw .missingItem
  match values.lookup (String.ofList name) with
  | some v => (steps (path.drop name.length)).foldlM step (value v)
  | none => throw .unknownField

-- ---------------------------------------------------------------------------
-- Conversions

/-- A text in which every character that is not of ASCII is written by its number. -/
def plainCharacters (s : List Char) : List Char :=
  s.flatMap fun c => if c.toNat < 0x80 then [c] else Text.byNumber c

/-- A subject that is converted to a text. -/
def converted (s : Subject) (conversion : Char) : Except Failure Subject :=
  if conversion = 's' then pure (text s.shown)
  else if conversion = 'r' then pure (text s.inner)
  else if conversion = 'a' then pure (text (String.ofList (plainCharacters s.inner.toList)))
  else throw .malformedPlaceholder

end Subject

end Message

end Mailgrid
