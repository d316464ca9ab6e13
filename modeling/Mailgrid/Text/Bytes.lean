import Mailgrid.Text.Quoted

/-!
# Bytes in texts

Bytes are written in a text six bits at a time, by one of sixty-four signs, and
they are shown between quotes like a text, with a sign before it.
-/

namespace Mailgrid.Text

/-- The value of one of the sixty-four signs. -/
def sextet? (c : Char) : Option Nat :=
  if 'A' ≤ c && c ≤ 'Z' then some (c.toNat - 65)
  else if 'a' ≤ c && c ≤ 'z' then some (c.toNat - 71)
  else if '0' ≤ c && c ≤ '9' then some (c.toNat + 4)
  else if c = '+' then some 62
  else if c = '/' then some 63
  else none

/-- Reads signs behind `place` signs of a group of four, of which the last bits are still `held`;
`pads` signs of padding stand right before. Other characters mean nothing, and neither does what
follows a group that padding fills. A group that is not filled has no bytes. -/
def sextetsFrom (place held pads : Nat) : List Char → Option (List UInt8)
  | [] => if place = 0 then some [] else none
  | c :: rest =>
    if c = '=' then
      if 2 ≤ place then
        if 4 ≤ place + pads + 1 then some [] else sextetsFrom place held (pads + 1) rest
      else sextetsFrom place held pads rest
    else match sextet? c with
      | none => sextetsFrom place held pads rest
      | some v =>
        match place with
        | 0 => sextetsFrom 1 v 0 rest
        | 1 => (sextetsFrom 2 (v % 16) 0 rest).map (UInt8.ofNat (held * 4 + v / 16) :: ·)
        | 2 => (sextetsFrom 3 (v % 4) 0 rest).map (UInt8.ofNat (held * 16 + v / 4) :: ·)
        | _ => (sextetsFrom 0 0 0 rest).map (UInt8.ofNat (held * 64 + v) :: ·)

/-- The bytes that a text of such signs stands for. -/
def base64? (s : List Char) : Option (List UInt8) :=
  sextetsFrom 0 0 0 s

/-- A byte between quotes. Bytes that are no visible character are written by number. -/
def escapeByte (quote : Char) (b : UInt8) : List Char :=
  let c := Char.ofNat b.toNat
  if c = quote ∨ c = '\\' ∨ c = '\n' ∨ c = '\r' ∨ c = '\t' then escapeBy quote c
  else if 32 ≤ b && b < 127 then [c]
  else '\\' :: 'x' :: hexPlaces b.toNat 2

def quotedBytes (bytes : List UInt8) : String :=
  let quote := if bytes.contains 39 && !bytes.contains 34 then '"' else '\''
  String.ofList ('b' :: quote :: bytes.flatMap (escapeByte quote) ++ [quote])

end Mailgrid.Text
