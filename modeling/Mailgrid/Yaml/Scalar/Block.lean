import Mailgrid.Yaml.Mark

/-!
# Block scalars

A scalar on lines of its own, all of them indented alike. A header tells what
becomes of the line breaks at its end and may tell the indentation; line breaks
inside are kept, or folded between lines that do not start with a blank.
-/

namespace Mailgrid.Yaml.Mark

/-- What becomes of the line breaks at the end of a block scalar. -/
inductive Chomping where
  | clip
  | strip
  | keep
  deriving DecidableEq

structure BlockHeader where
  chomping : Chomping
  indentation : Option Nat

def chomping? (c : Char) : Option Chomping :=
  if c = '+' then some .keep else if c = '-' then some .strip else none

/-- The figure of an indentation, which is not nought. -/
def figure? (s : List Mark) : Except Fault (Option Nat × List Mark) :=
  let c := peek s
  if c == '0' then throw .malformed
  else if c.isDigit then pure (some (c.toNat - 48), s.drop 1)
  else pure (none, s)

def chompingSign (s : List Mark) : Option Chomping × List Mark :=
  match chomping? (peek s) with
  | some chomping => (some chomping, s.drop 1)
  | none => (none, s)

/-- The signs behind the one that opens a block scalar, in either order. -/
def blockHeader (s : List Mark) : Except Fault (BlockHeader × List Mark) := do
  let (first, s) := chompingSign s
  let (figure, s) ← figure? s
  let (second, s) := if first.isNone && figure.isSome then chompingSign s else (none, s)
  if isSpaceOrEnd (peek s) then pure (⟨(first.or second).getD .clip, figure⟩, s)
  else throw .malformed

/-- Blank lines, without more than `indent` spaces of the line behind them. -/
def blockBreaks (indent : Nat) : List Mark → List Char × List Mark
  | [] => ([], [])
  | m :: rest =>
    if m.char == ' ' && m.column < indent then blockBreaks indent rest
    else if isBreak m.char then
      let (breaks, after) := blockBreaks indent rest
      (breakKept m.char :: breaks, after)
    else ([], m :: rest)

/-- How far the first line of a block is indented, or a longer blank line before it. -/
def blockIndent (found : Nat) : List Mark → Nat
  | [] => found
  | m :: rest =>
    if m.char == ' ' then blockIndent (max found (m.column + 1)) rest
    else if isBreak m.char then blockIndent found rest
    else found

/-- Does a line of the block start here? -/
def isIndented (indent : Nat) (s : List Mark) : Bool :=
  columnAt s == indent && peek s != '\x00'

/-- A block from one of its lines on: its text, the last line break, and those behind it. -/
structure BlockLines where
  text : List Char
  last : List Char
  trailing : List Char
  rest : List Mark

/-- Reads the lines of a block from one on; `fuel` bounds them. -/
def blockLines (folds : Bool) (indent fuel : Nat) (s : List Mark) : BlockLines :=
  let line := chars (s.takeWhile fun m => !isEnd m.char)
  let behind := skipLine s
  let kept := if isBreak (peek behind) then [breakKept (peek behind)] else []
  let (breaks, next) := blockBreaks indent (if kept.isEmpty then behind else behind.drop 1)
  match fuel with
  | 0 => ⟨line, kept, breaks, next⟩
  | fuel + 1 =>
    if isIndented indent next then
      let joined :=
        if folds && kept == ['\n'] && !isBlank (peek s) && !isBlank (peek next) then
          if breaks.isEmpty then [' '] else []
        else kept
      let more := blockLines folds indent fuel next
      { more with text := line ++ joined ++ breaks ++ more.text }
    else ⟨line, kept, breaks, next⟩

/-- A block scalar behind its sign, inside a node of this indentation. -/
def block (folds : Bool) (indent : Int) (s : List Mark) : Except Fault (List Char × List Mark) := do
  let (header, after) ← blockHeader s
  match nextLine? after with
  | none => throw .malformed
  | some body =>
    let least := max 1 (indent + 1).toNat
    let width := match header.indentation with
      | some n => least + n - 1
      | none => max least (blockIndent 0 body)
    let (breaks, first) := blockBreaks width body
    if isIndented width first then
      let lines := blockLines folds width first.length first
      let ending := match header.chomping with
        | .clip => lines.last
        | .strip => []
        | .keep => lines.last ++ lines.trailing
      pure (breaks ++ lines.text ++ ending, lines.rest)
    else pure (if header.chomping = .keep then breaks else [], first)

end Mailgrid.Yaml.Mark
