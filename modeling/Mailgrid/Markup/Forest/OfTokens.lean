import Mailgrid.Markup.Grammar
import Mailgrid.Markup.Token

/-!
# Forests of tokens

A start tag opens an element inside the innermost open one, an end tag closes
everything up to the nearest open element of its name and means nothing if there
is none. Nothing else is known about which elements may contain which. Texts in
a row are one node; a node of blanks alone becomes a single line break or
space, except where blanks are kept.

A void element is closed at once, and so is any element whose start tag ends in
a slash. An end tag that follows later is passed over, once for each void start
tag of that name that was written without a slash.

The document itself counts as an element of the name `[document]` around all
others where a grammar says which elements keep their blanks.
-/

namespace Mailgrid.Markup

/-- A forest as far as it is read. -/
structure Growth where
  /-- What the innermost open element holds. -/
  content : Forest Unit
  /-- The open elements, innermost first, each with what stands before it in its parent. -/
  opened : List (Tag × Forest Unit)
  /-- The text that is not yet a node. -/
  pending : Option String
  /-- The names of the void elements whose end tags are passed over. -/
  passed : List String

namespace Growth

def empty : Growth :=
  ⟨.nil, [], none, []⟩

def isSpace (c : Char) : Bool :=
  c == ' ' || c == '\n' || c == '\t' || c == '\x0c' || c == '\r'

/-- The content of a leaf. -/
def settled (keepsBlanks : Bool) (content : String) : String :=
  if !keepsBlanks && content.toList.all isSpace then
    if content.toList.contains '\n' then "\n" else " "
  else content

/-- Does an open element, or the document itself, keep its blanks? -/
def keepsBlanks (grammar : Grammar) (g : Growth) : Bool :=
  grammar.keepsBlanks.contains documentName ||
    g.opened.any fun (tag, _) => grammar.keepsBlanks.contains tag.name

def add (g : Growth) (f : Forest Unit) : Growth :=
  { g with content := g.content ++ f }

def addLeaf (grammar : Grammar) (g : Growth) (kind : LeafKind) (content : String) :
    Except Failure Growth :=
  if grammar.makesNodes then
    pure (g.add (.leaf () kind (settled (g.keepsBlanks grammar) content) .nil))
  else throw .parserOptionWithoutParts

/-- Makes a node of the pending text. -/
def flush (grammar : Grammar) (g : Growth) : Except Failure Growth := do
  match g.pending with
  | none => pure g
  | some content =>
    let kind ← grammar.textKind (g.opened.map (·.1.name))
    ({ g with pending := none } : Growth).addLeaf grammar (.text kind) content

/-- Adds a leaf behind the pending text. -/
def addBehind (grammar : Grammar) (g : Growth) (kind : LeafKind) (content : String) :
    Except Failure Growth := do
  (← g.flush grammar).addLeaf grammar kind content

def addText (g : Growth) (content : String) : Growth :=
  { g with pending := some (g.pending.getD "" ++ content) }

def open_ (g : Growth) (tag : Tag) : Growth :=
  { g with content := .nil, opened := (tag, g.content) :: g.opened }

def closeInnermost (g : Growth) : Growth :=
  match g.opened with
  | [] => g
  | (tag, before) :: outer =>
    { g with content := before ++ .element () tag g.content .nil, opened := outer }

def closeMany : Nat → Growth → Growth
  | 0, g => g
  | n + 1, g => closeMany n g.closeInnermost

/-- Closes the nearest open element of this name, and all within it. -/
def close (g : Growth) (name : String) : Growth :=
  match g.opened.findIdx? fun (tag, _) => tag.name == name with
  | none => g
  | some depth => closeMany (depth + 1) g

/-- An end tag, unless it is one to be passed over. -/
def endTag (grammar : Grammar) (g : Growth) (name : String) : Except Failure Growth := do
  if g.passed.contains name then pure { g with passed := g.passed.erase name }
  else pure ((← g.flush grammar).close name)

def startTag (grammar : Grammar) (g : Growth) (written : OpenTag) : Except Failure Growth := do
  let attributes ← collect grammar.repeated written.attributes
  let g ← g.flush grammar
  let tag ← Tag.read grammar written.name attributes
  let g := g.open_ tag
  if written.closed then pure (g.close written.name)
  else if tag.void then
    let g := g.close written.name
    pure { g with passed := g.passed ++ [written.name] }
  else pure g

/-- A marked section is literal text if it says so, else a declaration. -/
def marked (grammar : Grammar) (g : Growth) (content : String) : Except Failure Growth :=
  if (content.toList.take 6).map Char.toLower == "cdata[".toList then
    g.addBehind grammar .cdata (String.ofList (content.toList.drop 6))
  else g.addBehind grammar .declaration content

def token (grammar : Grammar) (g : Growth) : Token → Except Failure Growth
  | .text content => pure (g.addText content)
  | .startTag tag => g.startTag grammar tag
  | .endTag name => g.endTag grammar name
  | .comment content => g.addBehind grammar .comment content
  | .docType content => g.addBehind grammar .docType (String.ofList (content.toList.drop 8))
  | .marked content => g.marked grammar content
  | .instruction content => g.addBehind grammar .instruction content
  | .refused f => throw f

/-- Closes what is still open. -/
def finish (grammar : Grammar) (g : Growth) : Except Failure (Forest Unit) := do
  let g ← g.flush grammar
  pure (closeMany g.opened.length g).content

end Growth

def Forest.ofTokens (grammar : Grammar) (tokens : List Token) : Except Failure (Forest Unit) := do
  (← tokens.foldlM (Growth.token grammar) Growth.empty).finish grammar

/-- Reads a markup text. -/
def Forest.parse (grammar : Grammar) (s : List Char) : Except Failure (Forest Unit) :=
  Forest.ofTokens grammar (Token.ofText s)

end Mailgrid.Markup
