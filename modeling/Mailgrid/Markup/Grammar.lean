import Mailgrid.Failure
import Mailgrid.Markup.Forest
import Mailgrid.Text.Case
import Mailgrid.Text.Search

/-!
# Grammars

What a reader of markup has to know about names: which elements are void, where
blanks are kept, which attributes are lists of words, and which of two
attributes of one name counts. `Tag.read` makes the tag of an element from the
attributes as they are written.
-/

namespace Mailgrid.Markup

/-- A set of names. One that is given by a text holds every part of that text. -/
inductive NameSet where
  | every
  | listed (names : List String)
  | within (text : String)
  deriving DecidableEq

def NameSet.contains : NameSet → String → Bool
  | .every, _ => true
  | .listed names, name => names.contains name
  | .within text, name => Text.isPartOf name.toList text.toList

/-- Which attributes are lists of words. A set that cannot be searched fails when it is used. -/
inductive WordLists where
  | nowhere
  | unusable
  /-- The sets for all elements, under `*`, and for single elements. -/
  | byElement (sets : List (String × Option NameSet))
  deriving DecidableEq

inductive Repeated where
  | lastCounts
  | firstCounts
  | refused
  deriving DecidableEq

/-- The name under which a document as a whole is looked up among names of elements. -/
def documentName : String :=
  "[document]"

/-- Which elements have texts of kinds of their own. -/
inductive TextKinds where
  | standard
  /-- No text can be made in these elements. -/
  | noTexts (elements : List String)
  /-- These elements cannot be made. -/
  | noElements (elements : NameSet)
  deriving DecidableEq

structure Grammar where
  void : NameSet
  keepsBlanks : NameSet
  wordLists : WordLists
  /-- Can an attribute be made a list of words? -/
  makesWords : Bool
  repeated : Repeated
  textKinds : TextKinds
  /-- Can any node be made? -/
  makesNodes : Bool
  deriving DecidableEq

namespace Grammar

def voidNames : List String :=
  ["area", "base", "br", "col", "embed", "hr", "img", "input", "keygen", "link", "menuitem",
    "meta", "param", "source", "track", "wbr", "basefont", "bgsound", "command", "frame", "image",
    "isindex", "nextid", "spacer"]

def standard : Grammar :=
  ⟨.listed voidNames, .listed ["pre", "textarea"], .nowhere, true, .lastCounts, .standard, true⟩

-- ---------------------------------------------------------------------------
-- Kinds of text

/-- The elements whose texts have a kind of their own. -/
def textHolders : List (String × TextKind) :=
  [("rt", .rubyText), ("rp", .rubyParenthesis), ("style", .stylesheet), ("script", .script),
    ("template", .template)]

/-- The kind of a text inside open elements, the innermost first. -/
def textKind (grammar : Grammar) (opened : List String) : Except Failure TextKind :=
  if !grammar.makesNodes then throw .parserOptionWithoutParts
  else match grammar.textKinds with
    | .standard => pure ((opened.findSome? fun name => textHolders.lookup name).getD .plain)
    | .noTexts elements =>
      if (opened ++ [documentName]).any elements.contains then throw .parserOptionMistyped
      else pure .plain
    | .noElements _ => pure .plain

/-- Fails where no element of this name can be made. -/
def checkElement (grammar : Grammar) (name : String) : Except Failure Unit :=
  match grammar.textKinds with
  | .noElements elements =>
    if elements.contains name then throw .parserOptionMistyped else pure ()
  | _ => pure ()

end Grammar

def WordLists.contains (sets : List (String × Option NameSet)) (element name : String) :
    Except Failure Bool := do
  let inAll ← match sets.lookup "*" with
    | none => pure false
    | some (some set) => pure (set.contains name)
    | some none => throw .parserOptionMistyped
  if inAll then pure true
  else match sets.lookup (Text.lowerString element) with
    | none => pure false
    | some (some set) => pure (set.contains name)
    | some none => throw .parserOptionMistyped

def wordsOf (s : String) : List String :=
  (Text.words s.toList).map String.ofList

/-- The attributes of one element, each name once, at the place of its first spelling. -/
def collect (repeated : Repeated) (pairs : List (String × String)) :
    Except Failure (List (String × AttributeValue)) :=
  pairs.foldlM (fun known (name, value) =>
    if (known.lookup name).isNone then pure (known ++ [(name, .text value)])
    else match repeated with
      | .lastCounts => pure (Table.assign name (.text value) known)
      | .firstCounts => pure known
      | .refused => throw .repeatedAttribute) []

def splitLists (grammar : Grammar) (element : String)
    (attributes : List (String × AttributeValue)) :
    Except Failure (List (String × AttributeValue)) :=
  match grammar.wordLists with
  | .nowhere => pure attributes
  | .unusable => if attributes.isEmpty then pure [] else throw .parserOptionWithoutParts
  | .byElement sets => attributes.mapM fun (name, value) => do
    if ← WordLists.contains sets element name then
      if grammar.makesWords then pure (name, .words (wordsOf value.shown))
      else throw .parserOptionMistyped
    else pure (name, value)

/-- Marks the label of the character set in the attributes of a `meta` element. -/
def markCharset (t : Tag) : Except Failure Tag :=
  if t.name ≠ "meta" then pure t
  else match t.get? "charset", t.get? "content", t.get? "http-equiv" with
    | some label, _, _ => pure (t.set "charset" (.charset label.shown))
    | none, some content, some kind =>
      match kind, content with
      | .words _, _ => throw .attributeNotText
      | _, .words _ =>
        if Text.lowerString kind.shown = "content-type" then throw .parserOptionMistyped else pure t
      | _, _ =>
        if Text.lowerString kind.shown = "content-type" then
          pure (t.set "content" (.contentType content.shown))
        else pure t
    | _, _, _ => pure t

/-- The tag of an element with these attributes, each name of which stands there once. -/
def Tag.read (grammar : Grammar) (name : String) (attributes : List (String × AttributeValue)) :
    Except Failure Tag := do
  if !grammar.makesNodes then throw .parserOptionWithoutParts
  let attributes ← splitLists grammar name attributes
  let tag ← markCharset ⟨name, attributes, grammar.void.contains name⟩
  grammar.checkElement name
  pure tag

end Mailgrid.Markup
