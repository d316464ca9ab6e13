import Mailgrid.Yaml.Scalar.Block
import Mailgrid.Yaml.Scalar.Plain
import Mailgrid.Yaml.Tag

/-!
# Tokens of options files

The signs, names and scalars of a text in order. Where blocks of lists and
mappings start and end is told by indentation, so there are tokens for that,
too. That something was a key is only known at the colon behind it: until then
its place is a candidate, and the token that marks a key is put there later. A
candidate has to find its colon on its own line and within 1024 characters.

When a text breaks a rule its tokens end with the fault, which stands where the
first candidate does that is still open: nothing behind it can be relied on.
-/

namespace Mailgrid.Yaml

inductive Token where
  | directive (d : Directive)
  | documentStart
  | documentEnd
  | textEnd
  | blockList
  | blockMapping
  | blockEnd
  | openBracket
  | closeBracket
  | openBrace
  | closeBrace
  | dash
  | comma
  | key
  | value
  | reference (name : String)
  | anchor (name : String)
  | tag (t : WrittenTag)
  | scalar (text : String) (isPlain : Bool)
  | fault (f : Fault)

/-- A place where a key may start. One that starts a line of a mapping must be a key. -/
structure Candidate where
  /-- How many tokens come before it. -/
  place : Nat
  isRequired : Bool
  mark : Mark

namespace Candidate

/-- Gives up a candidate, which must not be required. -/
def release : Option Candidate → Except Fault Unit
  | some c => if c.isRequired then throw .malformed else pure ()
  | none => pure ()

/-- Is a candidate too far back to be a key that ends before this text? -/
def isStale (s : List Mark) (c : Candidate) : Bool :=
  s.head?.any fun m => c.mark.line != m.line || 1024 < m.index - c.mark.index

/-- Gives up a candidate that is too far back. -/
def renewed (s : List Mark) (candidate : Option Candidate) : Except Fault (Option Candidate) := do
  if candidate.any (isStale s) then
    release candidate
    return none
  return candidate

end Candidate

/-- A text as far as its tokens are known. -/
structure Scan where
  rest : List Mark
  tokens : Array Token
  /-- The column of the innermost block, and those of the blocks around it. -/
  indent : Int
  outer : List Int
  /-- The candidate between the innermost brackets, and those outside of them. -/
  candidate : Option Candidate
  around : List (Option Candidate)
  mayStartKey : Bool

namespace Scan

open Mark (peek peekNext columnAt isBlankOrEnd)

def ofText (s : List Char) : Scan :=
  let marks := Mark.ofText 0 0 0 s
  let rest := if peek marks == Mark.order then marks.drop 1 else marks
  ⟨rest, #[], -1, [], none, [], true⟩

def isBracketed (t : Scan) : Bool :=
  !t.around.isEmpty

def add (t : Scan) (token : Token) : Scan :=
  { t with tokens := t.tokens.push token }

def goTo (t : Scan) (rest : List Mark) : Scan :=
  { t with rest }

/-- Adds a token that takes so many characters. -/
def take (t : Scan) (length : Nat) (token : Token) : Scan :=
  (t.add token).goTo (t.rest.drop length)

-- ---------------------------------------------------------------------------
-- Candidates for keys

def renewCandidates (t : Scan) : Except Fault Scan := do
  return { t with
    candidate := ← Candidate.renewed t.rest t.candidate
    around := ← t.around.mapM (Candidate.renewed t.rest) }

def dropCandidate (t : Scan) : Except Fault Scan := do
  Candidate.release t.candidate
  return { t with candidate := none }

/-- Notes that a key may start here, where one is possible. -/
def noteCandidate (t : Scan) : Except Fault Scan := do
  match t.mayStartKey, t.rest.head? with
  | true, some mark =>
    let t ← t.dropCandidate
    let isRequired := !t.isBracketed && t.indent == mark.column
    return { t with candidate := some ⟨t.tokens.size, isRequired, mark⟩ }
  | _, _ => return t

-- ---------------------------------------------------------------------------
-- Blocks

/-- Ends the blocks that are indented more than `column`. -/
def unwind (column indent : Int) (tokens : Array Token) : List Int → Int × List Int × Array Token
  | [] => (indent, [], tokens)
  | outer :: rest =>
    if column < indent then unwind column outer (tokens.push .blockEnd) rest
    else (indent, outer :: rest, tokens)

/-- Indentation means nothing between brackets. -/
def closeBlocks (t : Scan) (column : Int) : Scan :=
  if t.isBracketed then t
  else
    let (indent, outer, tokens) := unwind column t.indent t.tokens t.outer
    { t with indent, outer, tokens }

/-- Starts a block at a column, unless one is open there; its token goes to `place`. -/
def openBlock (t : Scan) (column place : Nat) (token : Token) : Scan :=
  if t.indent < column && !t.isBracketed then
    { t with
      tokens := t.tokens.insertIdxIfInBounds place token
      indent := column
      outer := t.indent :: t.outer }
  else t

def openBlockHere (t : Scan) (token : Token) : Scan :=
  t.openBlock (columnAt t.rest) t.tokens.size token

/-- A sign of a block may only stand where a key might, unless it is between brackets. -/
def needStart (t : Scan) : Except Fault Unit :=
  if t.isBracketed || t.mayStartKey then pure () else throw .malformed

-- ---------------------------------------------------------------------------
-- Kinds of token

def boundary (t : Scan) (length : Nat) (token : Token) : Except Fault Scan := do
  let t ← (t.closeBlocks (-1)).dropCandidate
  return { t.take length token with mayStartKey := false }

def directive (t : Scan) : Except Fault Scan := do
  let t ← (t.closeBlocks (-1)).dropCandidate
  let (directive, rest) ← Mark.directive t.rest
  return { (t.add (.directive directive)).goTo rest with mayStartKey := false }

def openBracket (t : Scan) (token : Token) : Except Fault Scan := do
  let t ← t.noteCandidate
  return { t.take 1 token with
    candidate := none, around := t.candidate :: t.around, mayStartKey := true }

def closeBracket (t : Scan) (token : Token) : Except Fault Scan := do
  let t ← t.dropCandidate
  match t.around with
  | [] => throw .malformed
  | candidate :: around =>
    return { t.take 1 token with candidate, around, mayStartKey := false }

def comma (t : Scan) : Except Fault Scan := do
  let t ← t.dropCandidate
  return { t.take 1 .comma with mayStartKey := true }

def dash (t : Scan) : Except Fault Scan := do
  t.needStart
  let t ← (t.openBlockHere .blockList).dropCandidate
  return { t.take 1 .dash with mayStartKey := true }

def key (t : Scan) : Except Fault Scan := do
  t.needStart
  let t ← (t.openBlockHere .blockMapping).dropCandidate
  return { t.take 1 .key with mayStartKey := !t.isBracketed }

/-- A colon makes a key of the open candidate. Without one it belongs to a key that was marked. -/
def colon (t : Scan) : Except Fault Scan := do
  match t.candidate with
  | some c =>
    let t := { t with
      candidate := none, tokens := t.tokens.insertIdxIfInBounds c.place .key }
    let t := t.openBlock c.mark.column c.place .blockMapping
    return { t.take 1 .value with mayStartKey := false }
  | none =>
    t.needStart
    let t := t.openBlockHere .blockMapping
    return { t.take 1 .value with mayStartKey := !t.isBracketed }

/-- A token that a key may start with. -/
def keyable (t : Scan) (read : List Mark → Except Fault (Token × List Mark)) :
    Except Fault Scan := do
  let t ← t.noteCandidate
  let (token, rest) ← read t.rest
  return { (t.add token).goTo rest with mayStartKey := false }

def reference (s : List Mark) : Except Fault (Token × List Mark) := do
  let (name, rest) ← Mark.anchorName s
  return (.reference name, rest)

def anchor (s : List Mark) : Except Fault (Token × List Mark) := do
  let (name, rest) ← Mark.anchorName s
  return (.anchor name, rest)

def tag (s : List Mark) : Except Fault (Token × List Mark) := do
  let (tag, rest) ← Mark.tag s
  return (.tag tag, rest)

def quoted (s : List Mark) : Except Fault (Token × List Mark) := do
  let (text, rest) ← Mark.quoted (peek s) (s.drop 1)
  return (.scalar (String.ofList text) false, rest)

/-- Behind a plain scalar that ends on another line a key may start. -/
def plain (t : Scan) : Except Fault Scan := do
  let t ← t.noteCandidate
  let (text, rest, crosses) := Mark.plain t.isBracketed t.indent t.rest
  return { (t.add (.scalar (String.ofList text) true)).goTo rest with mayStartKey := crosses }

/-- Behind a block scalar a key may start, for it ends with its last line. -/
def block (t : Scan) (folds : Bool) : Except Fault Scan := do
  let t ← t.dropCandidate
  let (text, rest) ← Mark.block folds t.indent (t.rest.drop 1)
  return { (t.add (.scalar (String.ofList text) false)).goTo rest with mayStartKey := true }

-- ---------------------------------------------------------------------------
-- All tokens

/-- Is this a sign that is followed by a blank, or that stands between brackets? -/
def isLoose (t : Scan) : Bool :=
  t.isBracketed || isBlankOrEnd (peekNext t.rest)

/-- The token that starts here. -/
def token (t : Scan) : Except Fault Scan :=
  let s := t.rest
  match peek s with
  | '\x00' => t.boundary 0 .textEnd
  | '[' => t.openBracket .openBracket
  | '\x7b' => t.openBracket .openBrace
  | ']' => t.closeBracket .closeBracket
  | '\x7d' => t.closeBracket .closeBrace
  | ',' => t.comma
  | '*' => t.keyable reference
  | '&' => t.keyable anchor
  | '!' => t.keyable tag
  | '\'' | '"' => t.keyable quoted
  | c =>
    if c == '%' && columnAt s == 0 then t.directive
    else if Mark.isFence '-' s then t.boundary 3 .documentStart
    else if Mark.isFence '.' s then t.boundary 3 .documentEnd
    else if c == '-' && isBlankOrEnd (peekNext s) then t.dash
    else if c == '?' && t.isLoose then t.key
    else if c == ':' && t.isLoose then t.colon
    else if c == '|' && !t.isBracketed then t.block false
    else if c == '>' && !t.isBracketed then t.block true
    else if Mark.startsPlain t.isBracketed s then t.plain
    else throw .malformed

/-- Goes to where the next token starts. A line break allows a key outside of brackets. -/
def goToToken (t : Scan) : Scan :=
  let (crosses, rest) := Mark.skip t.rest
  { t with rest, mayStartKey := t.mayStartKey || (crosses && !t.isBracketed) }

def step (t : Scan) : Except Fault Scan := do
  let t ← t.goToToken.renewCandidates
  (t.closeBlocks (columnAt t.rest)).token

/-- The tokens that can be relied on when a text breaks a rule, and the fault. -/
def broken (t : Scan) (f : Fault) : Array Token :=
  let t := t.renewCandidates.toOption.getD t
  let places := (t.candidate :: t.around).filterMap fun c => c.map (·.place)
  (t.tokens.take (places.foldl min t.tokens.size)).push (.fault f)

/-- All tokens from here on. Each but the last takes a character at least, so that `fuel` need not
be more than there are marks. -/
def run (fuel : Nat) (t : Scan) : Array Token :=
  match fuel with
  | 0 => t.broken .malformed
  | fuel + 1 =>
    match t.step with
    | .error f => t.broken f
    | .ok next => if next.tokens.back? matches some .textEnd then next.tokens else run fuel next

end Scan

/-- The tokens of a text. -/
def Token.ofText (s : List Char) : List Token :=
  let t := Scan.ofText s
  if s.all Mark.isAllowed then (t.run (t.rest.length + 1)).toList else [.fault .malformed]

end Mailgrid.Yaml
