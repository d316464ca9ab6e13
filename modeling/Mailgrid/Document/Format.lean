import Mailgrid.Markup.Forest.OfTokens
import Mailgrid.Markup.Style
import Mailgrid.Options

/-!
# Formats of documents

How documents are read and written, as the options for markup say. An option
that cannot be used fails when it is first needed: one for reading at the first
text that is read, one for writing at the first that is written.

Unless references are to be decoded, a placeholder stands for each ampersand
while a document is a tree, so that no reference is ever seen in it.
-/

namespace Mailgrid

open Markup (Escape Forest Grammar NameSet Repeated Style TextKinds WordLists documentName)

structure Format where
  /-- Are references read as the characters that they stand for? -/
  decodes : Bool
  placeholder : String
  grammar : Except Failure Grammar
  style : Except Failure Style

namespace Format

-- ---------------------------------------------------------------------------
-- Writing

/-- The style that a document is written in unless another is named. -/
def plainStyle (decodes : Bool) : Style :=
  ⟨if decodes then .markup else .nothing, false, true, false⟩

def styleOf (decodes : Bool) (named : Value) : Except Failure Style :=
  if !named.isGiven then pure (plainStyle decodes)
  else match named with
    | .text "minimal" => pure ⟨.markup, true, true, false⟩
    | .text "html" => pure ⟨.named, true, true, false⟩
    | .text "html5" => pure ⟨.namedLoose, true, false, true⟩
    | .text "html5-4.12" => pure ⟨.named, true, false, true⟩
    | .list _ | .set _ | .mapping _ | .again _ => throw .styleNotNamed
    | _ => throw .unknownStyle

-- ---------------------------------------------------------------------------
-- Reading

def readerNames : List String :=
  ["html.parser", "html", "strict"]

def isReader : Value → Bool
  | .text name => readerNames.contains name
  | _ => false

/-- One known name among several is enough; no names at all mean the only reader there is. -/
def checkNames (names : List Value) : Except Failure Unit :=
  if names.any (!·.isKey) then throw .readerNotNamed
  else if names.isEmpty || names.any isReader then pure ()
  else if names.all (fun name => name matches .text _) then throw .unknownReader
  else throw .readerNotNamed

def checkReader : Value → Except Failure Unit
  | .null => pure ()
  | .text name => checkNames [.text name]
  | .list names | .set names => checkNames names
  | .mapping entries => checkNames (entries.map (·.1))
  | .bytes [] => pure ()
  | _ => throw .readerNotNamed

def texts (values : List Value) : List String :=
  values.filterMap fun
    | .text s => some s
    | _ => none

/-- A value that names can be looked up in. -/
def nameSet? : Value → Option NameSet
  | .text s => some (.within s)
  | .list names | .set names => some (.listed (texts names))
  | .mapping entries => some (.listed (texts (entries.map (·.1))))
  | .again names => nameSet? names
  | _ => none

def nameSet (value : Value) : Except Failure NameSet :=
  match nameSet? value with
  | some set => pure set
  | none => throw .parserOptionMistyped

/-- What is not given for a single element is searched for nothing. -/
def listsOfElement (element : String) (value : Value) : Option NameSet :=
  if element ≠ "*" ∧ value.isGiven = false then some (.listed []) else nameSet? value

def wordLists (value : Value) : WordLists :=
  if !value.isGiven then .nowhere
  else match value.itself with
    | .mapping entries => .byElement (entries.filterMap fun
        | (.text element, names) => some (element, listsOfElement element names)
        | _ => none)
    | _ => .unusable

def repeated : Value → Repeated
  | .null => .lastCounts
  | .text "replace" => .lastCounts
  | .text "ignore" => .firstCounts
  | _ => .refused

/-- Kinds of text cannot be told by values; without any texts are plain. -/
def textKinds (value : Value) : Except Failure TextKinds := do
  match value.itself with
  | .mapping entries => pure (.noTexts (texts (entries.map (·.1))))
  | value =>
    let elements ← nameSet value
    if elements.contains documentName then throw .parserOptionMistyped
    pure (.noElements elements)

-- ---------------------------------------------------------------------------
-- Options for reading

/-- Options that are known but mean nothing. -/
def idleNames : List String :=
  ["decode_entities", "formatter", "features", "store_line_numbers", "parse_only", "parseOnlyThese",
    "from_encoding", "fromEncoding", "exclude_encodings", "builder", "convertEntities",
    "markupMassage", "smartQuotesTo", "selfClosingTags", "isHTML"]

/-- Options that are part of a grammar. -/
def grammarNames : List String :=
  ["multi_valued_attributes", "on_duplicate_attribute", "preserve_whitespace_tags",
    "empty_element_tags", "string_containers", "attribute_value_list_class",
    "attribute_dict_class", "element_classes", "parser_args", "parser_kwargs"]

/-- Options for the tokens of markup, which stand in an option of their own. -/
def tokenNames : List String :=
  ["on_duplicate_attribute", "convert_charrefs"]

/-- Options are looked up by name. -/
abbrev Given := String → Option Value

def Given.isSet (given : Given) (name : String) : Bool :=
  (given name).any Value.isGiven

/-- Options that stand for something which no value is. Of two names for a selection the first
counts, unless it is not set. -/
def checkTools (given : Given) : Except Failure Unit := do
  let selects := given.isSet "parse_only" || (given "parseOnlyThese").any fun v => !v matches .null
  let isBuilt := (given "builder").any fun v => !v matches .null
  if selects || isBuilt then throw .parserOptionWithoutParts

/-- Is an option known? An encoding that is set must not have its second name as well. -/
def isKnown (given : Given) (name : String) : Bool :=
  grammarNames.contains name ||
    (idleNames.contains name && !(name = "fromEncoding" && given.isSet "from_encoding"))

/-- Options for tokens are given by a mapping. -/
def tokenOptions (given : Given) : Except Failure (List (Value × Value)) :=
  match (given "parser_kwargs").map Value.itself with
  | some (.mapping entries) => pure entries
  | some v => if v.isGiven then throw .parserOptionWithoutParts else pure []
  | none => pure []

/-- Can nodes be made, with what is to be looked up in a mapping? -/
def makesNodes (given : Given) : Bool :=
  match (given "element_classes").map Value.itself with
  | some (.mapping _) | none => true
  | some v => !v.isGiven

/-- The grammar of options that are all known. -/
def grammarOfGiven (given : Given) : Except Failure Grammar := do
  let ofTokens ← tokenOptions given
  let isToken : Value × Value → Bool
    | (.text name, _) => tokenNames.contains name
    | _ => false
  if !ofTokens.all isToken || given.isSet "parser_args" || (given "attribute_dict_class").isSome then
    throw .parserOptionMistyped
  let g := Grammar.standard
  let orStandard {α : Type} (name : String) (standard : α) (read : Value → Except Failure α) :
      Except Failure α :=
    match given name with
    | some v => read v
    | none => pure standard
  return {
    void := ← orStandard "empty_element_tags" g.void fun v =>
      if v matches .null then pure .every else nameSet v
    keepsBlanks := ← orStandard "preserve_whitespace_tags" g.keepsBlanks nameSet
    wordLists := ← orStandard "multi_valued_attributes" g.wordLists fun v => pure (wordLists v)
    makesWords := (given "attribute_value_list_class").isNone
    repeated := repeated <| ((given "on_duplicate_attribute").or
      (ofTokens.lookup (.text "on_duplicate_attribute"))).getD .null
    textKinds := ← orStandard "string_containers" g.textKinds textKinds
    makesNodes := makesNodes given }

/-- The grammar of options for markup. They are named by texts; of faults in several the first in
the order of use counts. -/
def grammarOf (reader : Value) (entries : List (Value × Value)) : Except Failure Grammar := do
  let given : Given := fun name => entries.lookup (.text name)
  let names := texts (entries.map (·.1))
  if names.length < entries.length || ["markup", "self"].any names.contains then
    throw .unknownParserOption
  checkTools given
  checkReader reader
  if !names.all (isKnown given) then throw .unknownParserOption
  grammarOfGiven given

/-- The format that the options for markup describe. -/
def ofEntries (settings : Settings) (entries : List (Value × Value)) : Format :=
  let get (key : String) := entries.lookup (.text key)
  let decodes := ((get "decode_entities").getD .null).isGiven
  ⟨decodes, settings.entityPlaceholder,
    grammarOf ((get "features").getD (.text settings.reader)) entries,
    styleOf decodes ((get "formatter").getD .null)⟩

-- ---------------------------------------------------------------------------
-- Texts

/-- Every occurrence of `old` as `new`. The empty text occurs around every character. -/
def replaced (old new s : List Char) : List Char :=
  match old with
  | [] => new ++ s.flatMap fun c => c :: new
  | c :: old => Text.replaceAll c old new s

/-- Puts the placeholder in the place of ampersands. -/
def protect (f : Format) (text : String) : String :=
  if f.decodes then text
  else String.ofList (replaced ['&'] f.placeholder.toList text.toList)

/-- Puts ampersands in the place of the placeholder. -/
def restore (f : Format) (text : String) : String :=
  if f.decodes then text
  else String.ofList (replaced f.placeholder.toList ['&'] text.toList)

/-- Reads a text on its own. -/
def read (f : Format) (text : String) : Except Failure (Forest Unit) := do
  Forest.parse (← f.grammar) (f.protect text).toList

/-- Writes the content of an element, or of a document if there is none. -/
def write (f : Format) (parent : Option String) (content : Forest α) : Except Failure String := do
  pure (String.ofList ((← f.style).write parent content))

end Format

end Mailgrid
