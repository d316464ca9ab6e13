import Mailgrid.Document
import Mailgrid.Markup.ClassList
import Mailgrid.Message
import Mailgrid.Template

/-!
# Expansions

What becomes of a component. All kinds but one are replaced by markup: tables
around the inner markup of the element. Classes start with those of the kind,
followed by the element's own; attributes that mean nothing to the kind are
carried onto the generated element. The centering kind stays where it is and
changes what it holds.
-/

namespace Mailgrid

open Markup (AttributeValue Element Forest LeafKind Node Place Tag TextKind)

/-- What the kinds of component have to know of an engine. -/
structure Rules where
  /-- The width of the grid. -/
  width : Value
  columnsTag : Option String
  rowTag : Option String
  itemTag : Option String

def Rules.ofOptions (o : Options) : Except Failure Rules := do
  pure ⟨o.columnCount, ← o.tag .columns, ← o.tag .row, ← o.tag .menuItem⟩

inductive Expansion where
  | markup (text : String)
  /-- The element stays, with this content. -/
  | inPlace (content : Forest Nat)

namespace Expansion

-- ---------------------------------------------------------------------------
-- Attributes

/-- Attributes that are used up by an expansion. -/
def consumed : List String :=
  ["class", "id", "href", "size", "size-sm", "size-lg", "large", "no-expander", "small", "target"]

def quoteEscaped (s : String) : String :=
  String.ofList (s.toList.flatMap fun c => if c = '"' then "&quot;".toList else [c])

def carriedValue : AttributeValue → Except Failure String
  | .words (_ :: _) => throw .attributeNotText
  | .words [] => pure ""
  | value => pure (quoteEscaped value.shown)

/-- The attributes that an element passes on to what is generated for it. -/
def carried (t : Tag) : Except Failure (List (String × String)) :=
  (t.attributes.filter fun (name, _) => !consumed.contains name).mapM fun (name, value) => do
    pure (name, ← carriedValue value)

def classText (t : Tag) (kinds : List String) : String :=
  " ".intercalate (kinds ++ t.classes)

def target (t : Tag) : List (String × String) :=
  match t.filled? "target" with
  | some value => [("target", value)]
  | none => []

-- ---------------------------------------------------------------------------
-- Generated tables

def table (attributes : List (String × String)) (cells : Template) : Template :=
  .node "table" attributes (.node "tbody" [] (.node "tr" [] cells))

def cell (content : Template) : Template :=
  .node "td" [] content

/-- An empty cell that takes what width is left. -/
def expander (name : String) : Template :=
  .node name [("class", "expander")] .nil

def nextLine : Template :=
  .raw "\n"

def line (t : Tag) : Template :=
  .node "table" [("class", classText t ["h-line"])]
    (.node "tr" [] (.node "th" [] (.raw "&nbsp;")))

def row (attributes : List (String × String)) (t : Tag) (inner : Template) : Template :=
  table (attributes ++ [("class", classText t ["row"])]) inner

/-- The content of a button, in a link if it leads somewhere. -/
def linked (attributes : List (String × String)) (t : Tag) (inner : Template) : Template :=
  match t.filled? "href" with
  | some href => .node "a" (attributes ++ ("href", href) :: target t) inner
  | none => inner

def button (attributes : List (String × String)) (t : Tag) (inner : Template) : Template :=
  let wide := t.hasClass "expand" || t.hasClass "expanded"
  let link := linked attributes t inner
  table [("class", classText t ["button"])]
    (cell (table [] (cell (if wide then .node "center" [] link else link))) ++
      if wide then nextLine ++ expander "td" else .nil)

def container (attributes : List (String × String)) (t : Tag) (inner : Template) : Template :=
  table (attributes ++ [("align", "center"), ("class", classText t ["container"])]) (cell inner)

def marker : String :=
  "<tr><td><img src=\"https://raw.githubusercontent.com/arvida/emoji-cheat-sheet.com/" ++
    "master/public/graphics/emojis/octopus.png\" /></tr></td>"

def blockGrid (t : Tag) (inner : Template) : Template :=
  let kinds := match t.filled? "up" with
    | some up => ["block-grid", "up-" ++ up]
    | none => ["block-grid"]
  table [("class", classText t kinds)] inner

def menu (attributes : List (String × String)) (t : Tag) (inner : Template) : Template :=
  table (attributes ++ [("class", classText t ["menu"])]) (cell (table [] inner))

def menuItem (attributes : List (String × String)) (t : Tag) (inner : Template) : Template :=
  .node "th" (attributes ++ [("class", classText t ["menu-item"])])
    (.node "a" (("href", (t.filled? "href").getD "") :: target t) inner)

def callout (attributes : List (String × String)) (t : Tag) (inner : Template) : Template :=
  table (attributes ++ [("class", "callout")])
    (.node "th" [("class", classText t ["callout-inner"])] inner ++ expander "th")

def spacerTable (attributes : List (String × String)) (classes size : String) : Template :=
  table (attributes ++ [("class", classes)])
    (.node "td" [("height", size),
        ("style", "font-size:" ++ size ++ "px;line-height:" ++ size ++ "px;")] (.raw "&nbsp;"))

/-- A spacer is one table, or one for each kind of screen that it gives a size for. -/
def spacer (attributes : List (String × String)) (t : Tag) : Template :=
  let classes := classText t ["spacer"]
  let sized (name shown : String) : Template := match t.filled? name with
    | some size => spacerTable attributes (classes ++ shown) size
    | none => .nil
  if (t.filled? "size-sm").isSome || (t.filled? "size-lg").isSome then
    sized "size-sm" " hide-for-large" ++ sized "size-lg" " show-for-large"
  else spacerTable attributes classes ((t.filled? "size").getD "16")

def wrapper (attributes : List (String × String)) (t : Tag) (inner : Template) : Template :=
  table (attributes ++ [("class", classText t ["wrapper"]), ("align", "center")])
    (.node "td" [("class", "wrapper-inner")] inner)

/-- What an element of no kind becomes. -/
def plainRow (inner : Template) : Template :=
  .node "tr" [] (cell inner)

-- ---------------------------------------------------------------------------
-- Columns

/-- A column is an element of that kind or the cell that it was turned into. -/
def isColumn (rules : Rules) (t : Tag) : Bool :=
  some t.name == rules.columnsTag || (t.name == "th" && t.hasClass "columns")

def isRow (rules : Rules) (t : Tag) : Bool :=
  some t.name == rules.rowTag || t.hasClass "row"

/-- Are the columns before and after a place none, and how many are there with the one here? -/
structure Neighbours where
  first : Bool
  last : Bool
  total : Nat

def neighbours (rules : Rules) (before after : List (Element α)) : Neighbours :=
  let left := before.countP fun e => isColumn rules e.tag
  let right := after.countP fun e => isColumn rules e.tag
  ⟨left == 0, right == 0, left + right + 1⟩

/-- The size on large screens: the given one, else the one on small screens, else an even part of
the grid. -/
def largeSize (rules : Rules) (t : Tag) (total : Nat) : Except Failure String :=
  match t.filled? "large", t.filled? "small" with
  | some size, _ => pure size
  | none, some size => pure size
  | none, none => do pure (← rules.width.floorDiv total).shown

def columnClasses (rules : Rules) (t : Tag) (around : Neighbours) (large : String) : List String :=
  t.classes ++
    ["small-" ++ (t.filled? "small").getD rules.width.shown, "large-" ++ large, "columns"] ++
    (if around.first then ["first"] else []) ++ (if around.last then ["last"] else [])

/-- Nothing but an explicit wish keeps the expander out of a column that fills the grid. -/
def wantsExpander (t : Tag) : Bool :=
  match t.get? "no-expander" with
  | none => true
  | some value => value.shown == "false"

/-- A column of the full width has an expander unless it holds a row. -/
def hasExpander (rules : Rules) (t : Tag) (children : Forest α) (large : String) : Bool :=
  large == rules.width.shown && !(children.descendants.any fun e => isRow rules e.tag) &&
    wantsExpander t

def columns (classes : List String) (attributes : List (String × String)) (expanded : Bool)
    (inner : Template) : Template :=
  .node "th" (("class", " ".intercalate classes) :: attributes)
    (.node "table" [] (.node "tbody" [] (.node "tr" []
      (.node "th" [] inner ++ if expanded then nextLine ++ expander "th" else .nil))))

-- ---------------------------------------------------------------------------
-- Centering

def centered (t : Tag) : Tag :=
  (t.set "align" (.text "center")).addClass "float-center"

def isItem (rules : Rules) (t : Tag) : Bool :=
  some t.name == rules.itemTag || t.hasClass "menu-item"

/-- Centers the outermost elements of a forest, and every menu item in it. -/
def center (rules : Rules) (content : Forest α) : Forest α :=
  (content.mapTop centered).mapTags fun t =>
    if isItem rules t then t.addClass "float-center" else t

-- ---------------------------------------------------------------------------
-- All kinds

/-- What a text is called in a failure. -/
def textName : TextKind → String
  | .plain => "NavigableString"
  | .script => "Script"
  | .stylesheet => "Stylesheet"
  | .template => "TemplateString"
  | .rubyText => "RubyTextString"
  | .rubyParenthesis => "RubyParenthesisString"

/-- What a leaf is called in a failure. -/
def leafName : LeafKind → String
  | .text kind => textName kind
  | .comment => "Comment"
  | .cdata => "CData"
  | .instruction => "ProcessingInstruction"
  | .declaration => "Declaration"
  | .docType => "Doctype"
  | .leadingDocType => "InlineDoctype"

/-- The template of an element of a kind. Of two things that cannot be done, the one that comes
first in the order of the rule counts. -/
def template (rules : Rules) (format : Format) (kind : Option Component) (t : Tag)
    (children : Forest Nat) (before after : List (Element Nat)) : Except Failure Template := do
  let inner : Except Failure Template := do
    pure (.raw (← format.write (some t.name) children))
  match kind with
  | some .line => pure (line t)
  | some .row => do
    let attributes ← carried t
    pure (row attributes t (← inner))
  | some .button => do
    let inner ← inner
    let attributes ← if (t.filled? "href").isSome then carried t else pure []
    pure (button attributes t inner)
  | some .container => do
    let attributes ← carried t
    pure (container attributes t (← inner))
  | some .marker => pure (.raw marker)
  | some .blockGrid => return blockGrid t (← inner)
  | some .menu => do
    let attributes ← carried t
    pure (menu attributes t (← inner))
  | some .menuItem => do
    let attributes ← carried t
    pure (menuItem attributes t (← inner))
  | some .callout => do
    let attributes ← carried t
    pure (callout attributes t (← inner))
  | some .spacer => return spacer (← carried t) t
  | some .wrapper => do
    let attributes ← carried t
    pure (wrapper attributes t (← inner))
  | some .columns => do
    let inner ← inner
    let attributes ← carried t
    let around := neighbours rules before after
    let large ← largeSize rules t around.total
    pure (columns (columnClasses rules t around large) attributes
      (hasExpander rules t children large) inner)
  | some .center | none => return plainRow (← inner)

/-- What is told when a named element of no kind is expanded. -/
def messages (kind : Option Component) (place : Place Nat) : List Message :=
  match kind, place.node with
  | none, .element t _ =>
    if t.name.isEmpty then []
    else [⟨2, "No rule for <" ++ t.name ++ ">, wrapping in a row"⟩]
  | _, _ => []

/-- A document as a whole has no expansion. -/
def ofDocument : Except Failure Expansion :=
  throw (.notAnElement "BeautifulSoup")

/-- The expansion of the node at a place. Only named elements have one. -/
def ofPlace (rules : Rules) (format : Format) (kind : Option Component) (place : Place Nat) :
    Except Failure Expansion :=
  match place.node with
  | .leaf kind _ => throw (.notAnElement (leafName kind))
  | .element t children =>
    if t.name.isEmpty then throw .unnamedElement
    else match kind with
      | some .center => pure (.inPlace (center rules children))
      | _ => do
        pure (.markup (← template rules format kind t children place.before place.after).write)

end Expansion

end Mailgrid
