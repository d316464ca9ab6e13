import Mailgrid.Yaml.Mark

/-!
# Plain scalars

A scalar without signs around it. It ends where a comment, a colon or, between
brackets, one of their signs could begin, and where a line is not indented
enough; its line breaks are folded.
-/

namespace Mailgrid.Yaml.Mark

def isBracketSign (c : Char) : Bool :=
  c == ',' || c == '[' || c == ']' || c == '\x7b' || c == '\x7d'

/-- Signs of the format, which no plain scalar starts with unless the next character allows it. -/
def isIndicator (c : Char) : Bool :=
  "-?:,[]\x7b\x7d#&*!|>'\"%@`".toList.contains c

/-- May a plain scalar start here? -/
def startsPlain (bracketed : Bool) (s : List Mark) : Bool :=
  let c := peek s
  !(isBlankOrEnd c || isIndicator c) ||
    (!isBlankOrEnd (peekNext s) && (c == '-' || (!bracketed && (c == '?' || c == ':'))))

/-- Does a plain scalar, or a line of it, end before this text? -/
def endsPlain (bracketed : Bool) (s : List Mark) : Bool :=
  let c := peek s
  isBlankOrEnd c ||
    (c == ':' && (isBlankOrEnd (peekNext s) || (bracketed && isBracketSign (peekNext s)))) ||
    (bracketed && (c == '?' || isBracketSign c))

/-- The characters of a plain scalar up to a blank or its end. -/
def plainRun (bracketed : Bool) : List Mark → List Char × List Mark
  | [] => ([], [])
  | m :: rest =>
    if endsPlain bracketed (m :: rest) then ([], m :: rest)
    else
      let (run, after) := plainRun bracketed rest
      (m.char :: run, after)

/-- What stands between two runs of a plain scalar, as it is kept. -/
structure Gap where
  text : List Char
  rest : List Mark
  /-- Was there a line break? -/
  crosses : Bool

/-- Line breaks and the spaces around them, unless a document starts or ends among them. -/
def plainBreaks : List Mark → Option (List Char) × List Mark
  | [] => (some [], [])
  | m :: rest =>
    if m.char == ' ' then plainBreaks rest
    else if isBreak m.char then
      if isBoundary rest then (none, rest)
      else
        let (breaks, after) := plainBreaks rest
        (breaks.map (breakKept m.char :: ·), after)
    else (some [], m :: rest)

/-- The blanks behind a run. Where a document starts or ends nothing is kept of them. -/
def plainGap (s : List Mark) : Gap :=
  let next := skipSpaces s
  if isBreak (peek next) then
    match plainBreaks next with
    | (some breaks, after) => ⟨folded breaks, after, true⟩
    | (none, after) => ⟨[], after, true⟩
  else ⟨chars (s.takeWhile fun m => m.char == ' '), next, false⟩

/-- Reads on from the start of a run; `fuel` bounds the runs. -/
def plainFrom (bracketed : Bool) (indent : Int) (fuel : Nat) (s : List Mark) :
    List Char × List Mark × Bool :=
  let (run, after) := plainRun bracketed s
  let gap := plainGap after
  let ends := gap.text.isEmpty || peek gap.rest == '#' ||
    (!bracketed && decide ((columnAt gap.rest : Int) ≤ indent)) || endsPlain bracketed gap.rest
  match fuel with
  | 0 => (run, gap.rest, gap.crosses)
  | fuel + 1 =>
    if ends then (run, gap.rest, gap.crosses)
    else
      let (more, rest, crosses) := plainFrom bracketed indent fuel gap.rest
      (run ++ gap.text ++ more, rest, crosses)

/-- A plain scalar in a node of this indentation, the text behind it and its blanks, and whether
that is on a line of its own. -/
def plain (bracketed : Bool) (indent : Int) (s : List Mark) : List Char × List Mark × Bool :=
  plainFrom bracketed indent s.length s

end Mailgrid.Yaml.Mark
