import Mailgrid.Failure

/-!
# Marked texts

Where a character stands decides what it means in an options file, so each is
marked with its line, its column and how many characters come before it. A last
mark, of the character NUL, stands behind the text; no text holds that character
itself. Here is what can be told without knowing what a file describes: blanks,
line breaks, comments and the lines where documents start and end.
-/

namespace Mailgrid.Yaml

/-- Why an options file has no value: it breaks the rules of the format, or one of its scalars does
not stand for a value. -/
inductive Fault where
  | malformed
  | failure (f : Failure)

structure Mark where
  char : Char
  line : Nat
  column : Nat
  index : Nat

namespace Mark

/-- May a character stand in an options file? -/
def isAllowed (c : Char) : Bool :=
  let n := c.toNat
  n == 9 || n == 10 || n == 13 || (0x20 ≤ n && n ≤ 0x7E) || n == 0x85 || (0xA0 ≤ n && n ≤ 0xD7FF) ||
    (0xE000 ≤ n && n ≤ 0xFFFD) || 0x10000 ≤ n

def isBreak (c : Char) : Bool :=
  c == '\n' || c == '\x85' || c == '\u2028' || c == '\u2029'

def isEnd (c : Char) : Bool :=
  c == '\x00' || isBreak c

def isBlank (c : Char) : Bool :=
  c == ' ' || c == '\t'

def isBlankOrEnd (c : Char) : Bool :=
  isBlank c || isEnd c

def isSpaceOrEnd (c : Char) : Bool :=
  c == ' ' || isEnd c

/-- A byte order mark. It takes no column. -/
def order : Char := '\ufeff'

/-- A line break as it is kept in a scalar. -/
def breakKept (c : Char) : Char :=
  if c == '\u2028' || c == '\u2029' then c else '\n'

def ofText (line column index : Nat) : List Char → List Mark
  | [] => [⟨'\x00', line, column, index⟩]
  | c :: rest =>
    ⟨c, line, column, index⟩ ::
      if isBreak c then ofText (line + 1) 0 (index + 1) rest
      else ofText line (if c == order then column else column + 1) (index + 1) rest

def peek (s : List Mark) : Char :=
  (s.head?.map (·.char)).getD '\x00'

/-- The character behind the first. -/
def peekNext (s : List Mark) : Char :=
  peek (s.drop 1)

def columnAt (s : List Mark) : Nat :=
  (s.head?.map (·.column)).getD 0

def chars (s : List Mark) : List Char :=
  s.map (·.char)

/-- Three characters `c` at the start of a line, with nothing behind them. -/
def isFence (c : Char) (s : List Mark) : Bool :=
  columnAt s == 0 && chars (s.take 3) == [c, c, c] && isBlankOrEnd (peek (s.drop 3))

/-- Does a document start or end here? -/
def isBoundary (s : List Mark) : Bool :=
  isFence '-' s || isFence '.' s

def skipSpaces (s : List Mark) : List Mark :=
  s.dropWhile fun m => m.char == ' '

def skipLine (s : List Mark) : List Mark :=
  s.dropWhile fun m => !isEnd m.char

/-- Drops a comment that starts here. -/
def skipComment (s : List Mark) : List Mark :=
  if peek s == '#' then skipLine s else s

theorem length_skipLine_le (s : List Mark) : (skipLine s).length ≤ s.length :=
  (List.dropWhile_sublist _).length_le

/-- Drops spaces, comments and line breaks, and tells whether there was a line break. -/
def skip (s : List Mark) : Bool × List Mark :=
  match s with
  | [] => (false, [])
  | m :: rest =>
    if m.char == ' ' then skip rest
    else if m.char == '#' then skip (skipLine rest)
    else if isBreak m.char then (true, (skip rest).2)
    else (false, m :: rest)
termination_by s.length
decreasing_by
  · simp
  · exact Nat.lt_succ_of_le (length_skipLine_le rest)
  · simp

/-- The start of the next line, when nothing but a comment is left of this one. -/
def nextLine? (s : List Mark) : Option (List Mark) :=
  let rest := skipComment (skipSpaces s)
  if isBreak (peek rest) then some (rest.drop 1)
  else if isEnd (peek rest) then some rest
  else none

/-- What line breaks become in a scalar: one a space, more of them one less. -/
def folded (breaks : List Char) : List Char :=
  match breaks with
  | [] => []
  | ['\n'] => [' ']
  | '\n' :: rest => rest
  | breaks => breaks

end Mark

end Mailgrid.Yaml
