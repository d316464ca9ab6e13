import Mailgrid.Decimal.Read
import Mailgrid.Text.Case
import Mailgrid.Text.Integer
import Mailgrid.Value
import Mailgrid.Yaml.Kind
import Mailgrid.Yaml.Mark

/-!
# Values of scalars

The value that the text of a scalar stands for when its kind is known. A text
that implies its kind always has a form that is read here, though not every such
number or date exists; a tag may give a kind to any text.
-/

namespace Mailgrid.Yaml.Literal

def found (value : Option α) (f : Failure) : Except Fault α :=
  match value with
  | some a => pure a
  | none => throw (.failure f)

/-- The characters of a number but for its underscores. There must be one. -/
def numberText (s : List Char) : Except Fault (List Char) :=
  match s.filter (· != '_') with
  | [] => throw (.failure .emptyNumber)
  | s => pure s

-- ---------------------------------------------------------------------------
-- Whole numbers

/-- A number of base sixty, whose parts are whole numbers of any size. -/
def intSixty (s : List Char) : Option Int := do
  let parts ← (Kind.parts s).mapM Text.integer?
  return parts.foldl (fun n part => 60 * n + part) 0

/-- A whole number behind its sign. -/
def intSize (s : List Char) : Except Fault Int :=
  match s with
  | [] => throw (.failure .emptyNumber)
  | ['0'] => pure 0
  | '0' :: 'b' :: digits => found (Text.integerIn? 2 'b' digits) .malformedNumber
  | '0' :: 'x' :: digits => found (Text.integerIn? 16 'x' digits) .malformedNumber
  | '0' :: _ => found (Text.integerIn? 8 'o' s) .malformedNumber
  | s => found (if s.contains ':' then intSixty s else Text.integer? s) .malformedNumber

def int (s : List Char) : Except Fault Int := do
  let s ← numberText s
  let size ← intSize (Kind.unsigned s)
  return if s.head? = some '-' then -size else size

-- ---------------------------------------------------------------------------
-- Numbers with a point

/-- Adds up parts of base sixty, the last of them first. -/
def addSixties (sum : Float) (base : Nat) : List Float → Except Fault Float
  | [] => pure sum
  | part :: rest =>
    let weight := Decimal.ofInt base
    if weight.isInf then throw (.failure .numberTooLarge)
    else addSixties (sum + part * weight) (base * 60) rest

def floatSixty (s : List Char) : Except Fault Float := do
  let parts ← found ((Kind.parts s).mapM Decimal.ofText?) .malformedNumber
  addSixties 0 1 parts.reverse

/-- A number with a point behind its sign, in lower case. -/
def floatSize (s : List Char) : Except Fault Float :=
  let text := String.ofList s
  if text = ".inf" then pure (1 / 0)
  else if text = ".nan" then pure (0 / 0)
  else if s.contains ':' then floatSixty s
  else found (Decimal.ofText? s) .malformedNumber

def float (s : List Char) : Except Fault Float := do
  let s ← numberText s
  let size ← floatSize (Text.lower (Kind.unsigned s))
  return if s.head? = some '-' then -size else size

-- ---------------------------------------------------------------------------
-- Truth, bytes and dates

def truths : List (String × Bool) :=
  [("yes", true), ("no", false), ("true", true), ("false", false), ("on", true), ("off", false)]

def bool (s : List Char) : Except Fault Bool :=
  found (truths.lookup (String.ofList (Text.lower s))) .unknownTruth

def bytes (s : List Char) : Except Fault (List UInt8) :=
  match Text.base64? s with
  | some bytes => if s.all (·.toNat < 0x80) then pure bytes else throw .malformed
  | none => throw .malformed

/-- The first six digits of a fraction of a second. -/
def micro (fraction : List Char) : Nat :=
  Decimal.digits ((fraction ++ List.replicate 6 '0').take 6)

def minutesAhead (zone : Bool × List Char × List Char) : Int :=
  let (behind, hours, minutes) := zone
  let size : Int := 60 * Decimal.digits hours + Decimal.digits minutes
  if behind then -size else size

def date (s : List Char) : Except Fault Value := do
  let stamp ← found (Kind.stamp? (Kind.line s)) .malformedDate
  let number := Decimal.digits
  let day : Date := ⟨number stamp.year, number stamp.month, number stamp.day⟩
  match stamp.clock with
  | none => if day.isReal then pure (.date day) else throw (.failure .impossibleDate)
  | some (hour, minute, second, fraction) =>
    let moment : Moment :=
      ⟨day, number hour, number minute, number second, micro fraction, stamp.zone.map minutesAhead⟩
    if moment.isReal then pure (.moment moment) else throw (.failure .impossibleDate)

-- ---------------------------------------------------------------------------
-- All kinds

/-- The value of a scalar of a kind; lists and mappings are no scalars. -/
def value (kind : Kind) (text : String) : Except Fault Value :=
  let s := text.toList
  match kind with
  | .null => pure .null
  | .bool => return .bool (← bool s)
  | .int => return .int (← int s)
  | .float => return .float (← float s)
  | .bytes => return .bytes (← bytes s)
  | .date => date s
  | .text => pure (.text text)
  | .list | .orderedPairs | .set | .mapping | .merge | .default | .unknown => throw .malformed

end Mailgrid.Yaml.Literal
