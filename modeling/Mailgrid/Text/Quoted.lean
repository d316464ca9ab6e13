import Mailgrid.Text.Printable

/-!
# Quoted texts

How a text is shown inside a list or a mapping: between single quotes, or
between double quotes where that saves escaping a single one. What cannot be
shown is written by its number.
-/

namespace Mailgrid.Text

def smallHexDigit (n : Nat) : Char :=
  if n < 10 then Char.ofNat (48 + n) else Char.ofNat (87 + n)

/-- The last `places` hexadecimal digits of a number. -/
def hexPlaces (n : Nat) : Nat → List Char
  | 0 => []
  | places + 1 => hexPlaces (n / 16) places ++ [smallHexDigit (n % 16)]

/-- A character by its number. -/
def byNumber (c : Char) : List Char :=
  let n := c.toNat
  if n < 0x100 then '\\' :: 'x' :: hexPlaces n 2
  else if n < 0x10000 then '\\' :: 'u' :: hexPlaces n 4
  else '\\' :: 'U' :: hexPlaces n 8

def escapeBy (quote c : Char) : List Char :=
  if c = quote ∨ c = '\\' then ['\\', c]
  else if c = '\n' then ['\\', 'n']
  else if c = '\r' then ['\\', 'r']
  else if c = '\t' then ['\\', 't']
  else if isPrintable c then [c]
  else byNumber c

def quoted (s : List Char) : List Char :=
  let quote := if s.contains '\'' && !s.contains '"' then '"' else '\''
  quote :: s.flatMap (escapeBy quote) ++ [quote]

def quotedString (s : String) : String :=
  String.ofList (quoted s.toList)

/-- A list as it is shown: its items, each already shown, between brackets. -/
def bracketed (items : List String) : String :=
  "[" ++ ", ".intercalate items ++ "]"

end Mailgrid.Text
