import Mailgrid.Text.Case
import Mailgrid.Text.Integer
import Mailgrid.Text.Search
import Mailgrid.Value

/-!
# Settings

What holds for all engines of a process. Settings are read from the
environment and from given values, of which the given ones count; names in the
environment may be written in any case.
-/

namespace Mailgrid

structure Settings where
  columnCount : Int := 12
  rawStart : String := "###RAW"
  rawEnd : String := "###"
  entityPlaceholder : String := "\ue000"
  reader : String := "html.parser"
  maxExpansions : Int := 10000
  deriving DecidableEq

namespace Settings

def standard : Settings := {}

/-- The placeholder of a raw block. -/
def placeholder (s : Settings) (index : Nat) : String :=
  s.rawStart ++ toString index ++ s.rawEnd

/-- The number in a placeholder. Nothing is a placeholder while its end is the empty text. -/
def placeholderIndex? (s : Settings) (text : String) : Option Int :=
  let chars := text.toList
  if s.rawStart.toList.isPrefixOf chars && s.rawEnd.toList.isSuffixOf chars then
    if s.rawEnd.isEmpty then none
    else
      Text.integer? ((chars.take (chars.length - s.rawEnd.length)).drop s.rawStart.length)
  else none

-- ---------------------------------------------------------------------------
-- Reading settings

/-- The characters that are dropped around a number. Those that separate parts of data are not. -/
def isMargin (c : Char) : Bool :=
  Text.isBlank c && !('\x1c' ≤ c && c ≤ '\x1f')

/-- Drops noughts at the start, with underscores among them, but not the character before a point or
the last one. A sign behind them is none of a number. -/
def withoutNoughts (s : List Char) : List Char :=
  match s with
  | '0' :: rest =>
    let behind := rest.dropWhile fun c => c == '0' || c == '_'
    let dropped := s.take (s.length - behind.length)
    match behind with
    | [] | '.' :: _ => dropped.drop (dropped.length - 1) ++ behind
    | c :: _ => if c.isDigit then behind else s
  | s => s

/-- Drops a point with nothing but noughts behind it. -/
def withoutFraction (s : List Char) : List Char :=
  let whole := s.takeWhile (· != '.')
  if (s.drop (whole.length + 1)).all (· == '0') then whole else s

/-- Drops underscores, if none stands at an end or beside another. -/
def withoutUnderscores (s : List Char) : List Char :=
  if s.head? = some '_' ∨ s.getLast? = some '_' ∨ Text.isPartOf ['_', '_'] s = true then s
  else s.filter (· != '_')

/-- The number of digits that do not start with a nought, unless that is all. -/
def size? (s : List Char) : Option Nat :=
  if !s.isEmpty && s.all Char.isDigit && (s == ['0'] || s.head? != some '0') then Text.natural? s
  else none

/-- Behind a plus or nothing a number starts with a digit, or with a minus. -/
def isStart (signed : Bool) (c : Char) : Bool :=
  c.isDigit || (!signed && c == '-')

/-- A whole number as settings are written. -/
def wholeText? (s : List Char) : Option Int := do
  let s := (s.dropWhile isMargin).reverse.dropWhile isMargin |>.reverse
  let (signed, s) := match s with
    | '+' :: rest => (true, rest)
    | s => (false, s)
  guard (s.head?.any (isStart signed))
  match withoutUnderscores (withoutFraction (withoutNoughts s)) with
  | '-' :: digits =>
    guard (digits.length < Text.maxDigits)
    return -((← size? digits : Nat) : Int)
  | digits => return ((← size? digits : Nat) : Int)

/-- Larger numbers with a point are not taken for whole ones. -/
def maxWhole : Nat := Nat.pow 2 63

def whole (value : Value) : Except Failure Int :=
  let found := match value with
    | .int n => some n
    | .bool b => some (if b then 1 else 0)
    | .float x => (Decimal.whole? x).filter (·.natAbs < maxWhole)
    | .text s => wholeText? s.toList
    | _ => none
  match found with
  | some n => pure n
  | none => throw .invalidSetting

def textual (value : Value) : Except Failure String :=
  match value with
  | .text s => pure s
  | _ => throw .invalidSetting

/-- Gives one setting a value. -/
def set (s : Settings) (name : String) (value : Value) : Except Failure Settings :=
  match name with
  | "column_count" => return { s with columnCount := ← whole value }
  | "raw_placeholder_prefix" => return { s with rawStart := ← textual value }
  | "raw_placeholder_suffix" => return { s with rawEnd := ← textual value }
  | "entity_placeholder" => return { s with entityPlaceholder := ← textual value }
  | "parser_features" => return { s with reader := ← textual value }
  | "max_rewrites" => return { s with maxExpansions := ← whole value }
  | _ => throw .invalidSetting

def names : List String :=
  ["column_count", "raw_placeholder_prefix", "raw_placeholder_suffix", "entity_placeholder",
    "parser_features", "max_rewrites"]

/-- The variables of the environment that are settings, each name once. -/
def ofEnvironment (environment : List (String × String)) : List (String × Value) :=
  names.filterMap fun name =>
    let matching := environment.filter fun (key, _) => Text.lowerString key == "inky_" ++ name
    matching.getLast?.map fun (_, value) => (name, .text value)

/-- The settings with these variables in the environment and these values given. -/
def load (environment : List (String × String)) (given : List (String × Value)) :
    Except Failure Settings := do
  let fromEnvironment := (ofEnvironment environment).filter fun (name, _) =>
    (given.lookup name).isNone
  (fromEnvironment ++ given).foldlM (fun s (name, value) => s.set name value) standard

end Settings

end Mailgrid
