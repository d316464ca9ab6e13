import Mailgrid.Text.Integer
import Mailgrid.Yaml.Scalar.Quoted

/-!
# Tags and directives

A tag tells what kind of value a node has. It is written in full, or by a handle
that stands for its beginning; a directive before a document may tell what a
handle stands for.
-/

namespace Mailgrid.Yaml

/-- A tag as it is written: after a handle, or in full. -/
structure WrittenTag where
  handle : Option String
  suffix : String

/-- What is told about a document before it starts. -/
inductive Directive where
  | version (major : Nat)
  | handle (name stands : String)
  /-- One that means nothing here. -/
  | other

namespace Mark

/-- A character of the names of anchors, directives and handles. -/
def isWordChar (c : Char) : Bool :=
  c.isAlphanum || c == '-' || c == '_'

def word (s : List Mark) : List Char × List Mark :=
  let word := s.takeWhile fun m => isWordChar m.char
  (chars word, s.drop word.length)

/-- A name that is not empty. -/
def name (s : List Mark) : Except Fault (String × List Mark) :=
  match word s with
  | ([], _) => throw .malformed
  | (word, rest) => pure (String.ofList word, rest)

/-- A character of tags. -/
def isTagChar (c : Char) : Bool :=
  c.isAlphanum || "-;/?:@&=+$,_.!~*'()[]%".toList.contains c

/-- The characters that bytes encode. -/
def decoded (bytes : List UInt8) : Except Fault (List Char) :=
  match String.fromUTF8? ⟨bytes.toArray⟩ with
  | some text => pure text.toList
  | none => throw .malformed

/-- The characters of a tag. Bytes that are written one by one by their numbers are read together;
`pending` are those just before. -/
def unescaped (pending : List UInt8) : List Char → Except Fault (List Char)
  | '%' :: a :: b :: rest =>
    if isHex a && isHex b then unescaped (pending ++ [UInt8.ofNat (hexValue [a, b])]) rest
    else throw .malformed
  | '%' :: _ => throw .malformed
  | c :: rest => do return (← decoded pending) ++ c :: (← unescaped [] rest)
  | [] => decoded pending

/-- The text of a tag, or of what a handle stands for; it is not empty. -/
def tagText (s : List Mark) : Except Fault (String × List Mark) := do
  let text := s.takeWhile fun m => isTagChar m.char
  if text.isEmpty then throw .malformed
  pure (String.ofList (← unescaped [] (chars text)), s.drop text.length)

/-- A handle: a word between exclamation marks, or one such mark before a space. -/
def handle (s : List Mark) : Except Fault (String × List Mark) := do
  if peek s != '!' then throw .malformed
  let behind := s.drop 1
  if peek behind == ' ' then return ("!", behind)
  let (word, rest) := word behind
  if peek rest == '!' then return (String.ofList ('!' :: word ++ ['!']), rest.drop 1)
  throw .malformed

/-- Has this text, up to a space or the end of the line, an exclamation mark? -/
def hasHandle (s : List Mark) : Bool :=
  (s.takeWhile fun m => !isSpaceOrEnd m.char).any fun m => m.char == '!'

/-- A tag behind its exclamation mark. On its own that is a tag too. -/
def tagWritten (s : List Mark) : Except Fault (WrittenTag × List Mark) := do
  let behind := s.drop 1
  if peek behind == '<' then
    let (suffix, rest) ← tagText (behind.drop 1)
    if peek rest == '>' then return (⟨none, suffix⟩, rest.drop 1)
    throw .malformed
  else if isBlankOrEnd (peek behind) then return (⟨none, "!"⟩, behind)
  else
    let (handle, rest) ← if hasHandle behind then handle s else pure ("!", behind)
    let (suffix, rest) ← tagText rest
    return (⟨some handle, suffix⟩, rest)

/-- A tag with a space or a line break behind it. -/
def tag (s : List Mark) : Except Fault (WrittenTag × List Mark) := do
  let (written, rest) ← tagWritten s
  if isSpaceOrEnd (peek rest) then return (written, rest)
  throw .malformed

/-- The name of an anchor or an alias behind its sign. -/
def anchorName (s : List Mark) : Except Fault (String × List Mark) := do
  let (name, rest) ← name (s.drop 1)
  if isBlankOrEnd (peek rest) || "?:,]\x7d%@`".toList.contains (peek rest) then return (name, rest)
  throw .malformed

-- ---------------------------------------------------------------------------
-- Directives

def figures (s : List Mark) : Except Fault (Nat × List Mark) := do
  let digits := s.takeWhile fun m => m.char.isDigit
  if digits.isEmpty then throw .malformed
  match Text.natural? (chars digits) with
  | some n => pure (n, s.drop digits.length)
  | none => throw (.failure .numberTooLong)

/-- A version is two numbers with a point between them. -/
def version (s : List Mark) : Except Fault (Directive × List Mark) := do
  let (major, rest) ← figures (skipSpaces s)
  if peek rest != '.' then throw .malformed
  let (_, rest) ← figures (rest.drop 1)
  if isSpaceOrEnd (peek rest) then return (.version major, rest)
  throw .malformed

def handleMeaning (s : List Mark) : Except Fault (Directive × List Mark) := do
  let (name, rest) ← handle (skipSpaces s)
  if peek rest != ' ' then throw .malformed
  let (stands, rest) ← tagText (skipSpaces rest)
  if isSpaceOrEnd (peek rest) then return (.handle name stands, rest)
  throw .malformed

/-- A directive from its sign to the end of its line. -/
def directive (s : List Mark) : Except Fault (Directive × List Mark) := do
  let (name, rest) ← name (s.drop 1)
  if !isSpaceOrEnd (peek rest) then throw .malformed
  let (directive, rest) ←
    if name = "YAML" then version rest
    else if name = "TAG" then handleMeaning rest
    else pure (.other, skipLine rest)
  match nextLine? rest with
  | some next => pure (directive, next)
  | none => throw .malformed

end Mark

end Mailgrid.Yaml
