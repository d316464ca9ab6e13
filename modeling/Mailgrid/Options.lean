import Mailgrid.Component
import Mailgrid.Settings
import Mailgrid.Text.Case

/-!
# Options

What one engine is configured with: the width of the grid, the tag of each
component, and what is passed on to the reader and writer of markup. Tags that
are given replace the standard ones in place; keys of no component are kept but
mean nothing. `Options.components` is the table that tells which tags are
components.
-/

namespace Mailgrid

structure Options where
  columnCount : Value
  /-- A tag for each component, and what else was given, in order. -/
  tags : List (Value × Value)
  markup : List (Value × Value)

namespace Options

def standardTags : List (Value × Value) :=
  Component.all.map fun c => (.text c.key, .text c.standardTag)

/-- The standard tags with the given ones put over them. -/
def mergeTags (given : List (Value × Value)) : List (Value × Value) :=
  given.foldl (fun tags (key, tag) => Table.assign key tag tags) standardTags

def givenOr (value : Option Value) (fallback : Value) : Value :=
  match value with
  | some v => if v.isGiven then v else fallback
  | none => fallback

/-- The options of a mapping. The options for markup have two names, of which the first counts
even if it is there without a value. -/
def ofEntries (settings : Settings) (entries : List (Value × Value)) : Except Failure Options := do
  let get (key : String) := entries.lookup (.text key)
  let width := givenOr (get "columnCount") (.int settings.columnCount)
  let tags ← (givenOr (get "components") (.mapping [])).entries?
  let markup ← (givenOr ((get "parserOptions").or (get "cheerio")) (.mapping [])).entries?
  pure ⟨width, mergeTags tags, markup⟩

def ofValue (settings : Settings) (value : Value) : Except Failure Options :=
  if !value.isGiven then ofEntries settings []
  else match value with
    | .mapping entries => ofEntries settings entries
    | _ => throw .optionsNotMapping

/-- The component that a key in the table of tags names. -/
def componentOf? : Value → Option Component
  | .text key => Component.ofKey? key
  | _ => none

/-- A tag in lower case. Bytes are the tag of no element. -/
def lowerTag : Value → Except Failure (Option String)
  | .text tag => pure (some (Text.lowerString tag))
  | .bytes _ => pure none
  | _ => throw .tagNotText

/-- The tag of a component, in lower case. -/
def tag (o : Options) (c : Component) : Except Failure (Option String) :=
  lowerTag ((o.tags.lookup (.text c.key)).getD .null)

/-- Which tags are components. Of two components with one tag the later counts, at the place of
the earlier. -/
def components (o : Options) : Except Failure (List (String × Component)) :=
  o.tags.foldlM (fun table (key, tag) =>
    match componentOf? key with
    | none => pure table
    | some c => do
      match ← lowerTag tag with
      | some tag => pure (Table.assign tag c table)
      | none => pure table) []

/-- The keys of no component, in order. -/
def unknownKeys (o : Options) : List Value :=
  (o.tags.map (·.1)).filter fun key => (componentOf? key).isNone

end Options

end Mailgrid
