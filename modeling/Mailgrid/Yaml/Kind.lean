import Mailgrid.Text.Search
import Mailgrid.Text.Split

/-!
# Kinds of value

What kind of value a node stands for. A tag tells it, or else the text of a
plain scalar: each kind has its own ways of being written, and what is written
in none of them is a text. Numbers may be written in several bases, sixty among
them, and with underscores between the digits.
-/

namespace Mailgrid.Yaml

inductive Kind where
  | null
  | bool
  | int
  | float
  | bytes
  | date
  | text
  | list
  | orderedPairs
  | set
  | mapping
  /-- The key of what is merged into a mapping. -/
  | merge
  /-- The key of what a mapping stands for where it has to be a scalar. -/
  | default
  /-- A kind that has no values here. -/
  | unknown
  deriving DecidableEq

namespace Kind

/-- The kinds of the tags that are known, without what they all begin with. -/
def tagged : List (String × Kind) :=
  [("null", null), ("bool", bool), ("int", int), ("float", float), ("binary", bytes),
    ("timestamp", date), ("str", text), ("seq", list), ("omap", orderedPairs),
    ("pairs", orderedPairs), ("set", set), ("map", mapping), ("merge", merge), ("value", default)]

def tagStart : String := "tag:yaml.org,2002:"

def ofTag (tag : String) : Kind :=
  match Text.after? tagStart.toList tag.toList with
  | some name => (tagged.lookup (String.ofList name)).getD unknown
  | none => unknown

-- ---------------------------------------------------------------------------
-- Numbers

def isSign (c : Char) : Bool :=
  c == '-' || c == '+'

def unsigned (s : List Char) : List Char :=
  match s with
  | c :: rest => if isSign c then rest else s
  | [] => []

/-- A digit, or an underscore among digits. -/
def isDigitOr_ (c : Char) : Bool :=
  c.isDigit || c == '_'

/-- Digits with underscores among them, of which the first is a digit. -/
def isNumeral (s : List Char) : Bool :=
  (s.head?.any Char.isDigit) && s.all isDigitOr_

/-- At most 59, in one or two digits. -/
def isSixtieth : List Char → Bool
  | [d] => d.isDigit
  | [t, d] => '0' ≤ t && t ≤ '5' && d.isDigit
  | _ => false

/-- The parts of a text between its colons. -/
def parts (s : List Char) : List (List Char) :=
  Text.splitParts ':' s

/-- A numeral and sixtieths behind it, each after a colon. -/
def isSexagesimal (s : List Char) : Bool :=
  match parts s with
  | first :: second :: rest => isNumeral first && (second :: rest).all isSixtieth
  | _ => false

def isExponent (s : List Char) : Bool :=
  match s with
  | mark :: sign :: digits =>
    (mark == 'e' || mark == 'E') && isSign sign && !digits.isEmpty && digits.all Char.isDigit
  | _ => false

/-- Digits with underscores and perhaps an exponent. -/
def isFraction (s : List Char) : Bool :=
  let behind := s.dropWhile isDigitOr_
  behind.isEmpty || isExponent behind

/-- Has a text without a sign a point, as a number does? A bare fraction starts with a digit. -/
def isPointed (isSigned : Bool) (s : List Char) : Bool :=
  let whole := s.takeWhile (· != '.')
  match s.drop whole.length with
  | '.' :: fraction =>
    if whole.isEmpty then
      !isSigned && (fraction.head?.any Char.isDigit) && isFraction fraction
    else
      (isNumeral whole && isFraction fraction) ||
        (isSexagesimal whole && fraction.all isDigitOr_)
  | _ => false

def isFloat (s : List Char) : Bool :=
  let size := unsigned s
  isPointed (size.length < s.length) size ||
    [".inf", ".Inf", ".INF"].contains (String.ofList size) ||
    [".nan", ".NaN", ".NAN"].contains (String.ofList s)

def isHexOr_ (c : Char) : Bool :=
  isDigitOr_ c || ('a' ≤ c.toLower && c.toLower ≤ 'f')

def isOctalOr_ (c : Char) : Bool :=
  ('0' ≤ c && c ≤ '7') || c == '_'

def isBinaryOr_ (c : Char) : Bool :=
  c == '0' || c == '1' || c == '_'

/-- A whole number behind its sign: of base two, sixteen or eight behind a nought, else of base ten
or sixty. -/
def isWhole (s : List Char) : Bool :=
  match s with
  | ['0'] => true
  | '0' :: 'b' :: digits => !digits.isEmpty && digits.all isBinaryOr_
  | '0' :: 'x' :: digits => !digits.isEmpty && digits.all isHexOr_
  | '0' :: digits => digits.all isOctalOr_
  | s => isNumeral s || isSexagesimal s

def isInt (s : List Char) : Bool :=
  isWhole (unsigned s)

-- ---------------------------------------------------------------------------
-- Dates

/-- The numbers of a date, in the order in which they are written, with what tells the distance from
universal time: nothing, no distance, or a distance with its sign. -/
structure Stamp where
  year : List Char
  month : List Char
  day : List Char
  /-- Hour, minute, second and the fraction of a second. -/
  clock : Option (List Char × List Char × List Char × List Char)
  /-- Is it behind, by how many hours, and how many minutes? -/
  zone : Option (Bool × List Char × List Char)

/-- Digits at the start of a text, at least one and at most `most`. -/
def digits? (least most : Nat) (s : List Char) : Option (List Char × List Char) :=
  let found := (s.take most).takeWhile Char.isDigit
  if found.length < least then none else some (found, s.drop found.length)

def isGap (c : Char) : Bool :=
  c == ' ' || c == '\t'

/-- The distance from universal time at the end of a date, perhaps behind blanks. -/
def zone? (s : List Char) : Option (Option (Bool × List Char × List Char)) := do
  match s, s.dropWhile isGap with
  | [], _ => some none
  | _, ['Z'] => some (some (false, ['0'], ['0']))
  | _, c :: rest =>
    guard (isSign c)
    let (hours, rest) ← digits? 1 2 rest
    match rest with
    | [] => some (some (c == '-', hours, ['0']))
    | rest =>
      let (minutes, rest) ← digits? 2 2 (← Text.after? [':'] rest)
      guard rest.isEmpty
      some (some (c == '-', hours, minutes))
  | _, [] => none

/-- The start of the time behind a day. -/
def clockStart? (s : List Char) : Option (List Char) :=
  match s with
  | 'T' :: rest | 't' :: rest => some rest
  | c :: _ => if isGap c then some (s.dropWhile isGap) else none
  | [] => none

/-- A date, and perhaps a time behind it. -/
def stamp? (s : List Char) : Option Stamp := do
  let (year, rest) ← digits? 4 4 s
  let (month, rest) ← digits? 1 2 (← Text.after? ['-'] rest)
  let (day, rest) ← digits? 1 2 (← Text.after? ['-'] rest)
  if rest.isEmpty then return ⟨year, month, day, none, none⟩
  let (hour, rest) ← digits? 1 2 (← clockStart? rest)
  let (minute, rest) ← digits? 2 2 (← Text.after? [':'] rest)
  let (second, rest) ← digits? 2 2 (← Text.after? [':'] rest)
  let behindPoint := Text.after? ['.'] rest
  let fraction := (behindPoint.getD []).takeWhile Char.isDigit
  let zone ← zone? ((behindPoint.getD rest).drop fraction.length)
  return ⟨year, month, day, some (hour, minute, second, fraction), zone⟩

/-- A date on its own has two digits for the month and two for the day. -/
def isDate (s : List Char) : Bool :=
  match stamp? s with
  | some d => d.clock.isSome || (d.month.length == 2 && d.day.length == 2)
  | none => false

-- ---------------------------------------------------------------------------
-- Plain scalars

def truthWords : List String :=
  ["yes", "Yes", "YES", "no", "No", "NO", "true", "True", "TRUE", "false", "False", "FALSE", "on",
    "On", "ON", "off", "Off", "OFF"]

def nullWords : List String :=
  ["", "~", "null", "Null", "NULL"]

/-- A text without one line break at its end, unless it is nothing else. -/
def line (s : List Char) : List Char :=
  match s with
  | ['\n'] => s
  | s => if s.getLast? = some '\n' then s.dropLast else s

/-- The kind that the text of a plain scalar implies. -/
def implied (s : List Char) : Kind :=
  let s := line s
  let text := String.ofList s
  if truthWords.contains text then bool
  else if isFloat s then float
  else if isInt s then int
  else if text = "<<" then merge
  else if nullWords.contains text then null
  else if isDate s then date
  else if text = "=" then default
  else if text = "!" ∨ text = "&" ∨ text = "*" then unknown
  else Kind.text

end Kind

end Mailgrid.Yaml
