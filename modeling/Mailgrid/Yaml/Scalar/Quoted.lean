import Mailgrid.Yaml.Mark

/-!
# Quoted scalars

A scalar between single quotes, of which one inside is written twice, or between
double quotes, where a backslash starts an escape. Line breaks are folded.
-/

namespace Mailgrid.Yaml.Mark

/-- Line breaks and the blanks around them. No document starts or ends among them; `fresh` tells
that a line starts here. -/
def quotedBreaks (fresh : Bool) : List Mark → Except Fault (List Char × List Mark)
  | [] => pure ([], [])
  | m :: rest =>
    if fresh && isBoundary (m :: rest) then throw .malformed
    else if isBlank m.char then quotedBreaks false rest
    else if isBreak m.char then do
      let (breaks, after) ← quotedBreaks true rest
      pure (breakKept m.char :: breaks, after)
    else pure ([], m :: rest)

/-- The blanks inside quotes, folded if there is a line break among them. -/
def quotedGap (s : List Mark) : Except Fault (List Char × List Mark) := do
  let next := s.dropWhile fun m => isBlank m.char
  if isBreak (peek next) then
    let (breaks, after) ← quotedBreaks false next
    pure (folded breaks, after)
  else pure (chars (s.takeWhile fun m => isBlank m.char), next)

def escapes : List (Char × Char) :=
  [('0', '\x00'), ('a', '\x07'), ('b', '\x08'), ('t', '\t'), ('\t', '\t'), ('n', '\n'),
    ('v', '\x0b'), ('f', '\x0c'), ('r', '\r'), ('e', '\x1b'), (' ', ' '), ('"', '"'), ('\\', '\\'),
    ('/', '/'), ('N', '\x85'), ('_', '\u00a0'), ('L', '\u2028'), ('P', '\u2029')]

/-- How many digits follow the letter of an escape by number. -/
def codeLength? (c : Char) : Option Nat :=
  if c = 'x' then some 2 else if c = 'u' then some 4 else if c = 'U' then some 8 else none

def isHex (c : Char) : Bool :=
  c.isDigit || ('a' ≤ c.toLower && c.toLower ≤ 'f')

def hexValue (s : List Char) : Nat :=
  s.foldl (fun n c => 16 * n + (if c.isDigit then c.toNat - 48 else c.toLower.toNat - 87)) 0

/-- The character of a number. Half of a surrogate pair is none, and the replacement character is
taken for it. -/
def charOf (n : Nat) : Except Fault Char :=
  if 0x80000000 ≤ n then throw (.failure .characterTooLarge)
  else if 0x110000 ≤ n then throw (.failure .impossibleCharacter)
  else pure (if 0xD800 ≤ n ∧ n ≤ 0xDFFF then '\ufffd' else Char.ofNat n)

/-- What stands behind a backslash. -/
def escape (s : List Mark) : Except Fault (List Char × List Mark) := do
  let c := peek s
  let rest := s.drop 1
  match escapes.lookup c, codeLength? c with
  | some meant, _ => pure ([meant], rest)
  | none, some length =>
    let code := chars (rest.take length)
    if code.length = length ∧ code.all isHex = true then
      pure ([← charOf (hexValue code)], rest.drop length)
    else throw .malformed
  | none, none => if isBreak c then quotedBreaks true rest else throw .malformed

/-- The text up to the closing quote; `fuel` bounds its parts. -/
def quotedFrom (quote : Char) (fuel : Nat) (s : List Mark) :
    Except Fault (List Char × List Mark) := do
  let c := peek s
  let rest := s.drop 1
  match fuel with
  | 0 => throw .malformed
  | fuel + 1 =>
    if c == quote && !(quote == '\'' && peek rest == '\'') then return ([], rest)
    let (text, after) ←
      if c == '\x00' then throw .malformed
      else if c == quote then pure ([quote], rest.drop 1)
      else if c == '\\' && quote == '"' then escape rest
      else if isBlank c || isBreak c then quotedGap s
      else pure ([c], rest)
    let (more, rest) ← quotedFrom quote fuel after
    return (text ++ more, rest)

/-- The text behind an opening quote. -/
def quoted (quote : Char) (s : List Mark) : Except Fault (List Char × List Mark) :=
  quotedFrom quote (s.length + 1) s

end Mailgrid.Yaml.Mark
