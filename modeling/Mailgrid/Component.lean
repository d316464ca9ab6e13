/-!
# Components

The kinds of component a document is written with. Each has a key in options,
a tag that stands for it unless options say otherwise, and a name in capitals.
-/

namespace Mailgrid

inductive Component where
  | button
  | row
  | columns
  | container
  | callout
  | marker
  | blockGrid
  | menu
  | menuItem
  | center
  | spacer
  | wrapper
  | line
  deriving DecidableEq

namespace Component

/-- All kinds, in the order of the standard tags. -/
def all : List Component :=
  [button, row, columns, container, callout, marker, blockGrid, menu, menuItem, center, spacer,
    wrapper, line]

def key : Component → String
  | button => "button"
  | row => "row"
  | columns => "columns"
  | container => "container"
  | callout => "callout"
  | marker => "inky"
  | blockGrid => "blockGrid"
  | menu => "menu"
  | menuItem => "menuItem"
  | center => "center"
  | spacer => "spacer"
  | wrapper => "wrapper"
  | line => "hLine"

def standardTag : Component → String
  | button => "button"
  | row => "row"
  | columns => "columns"
  | container => "container"
  | callout => "callout"
  | marker => "inky"
  | blockGrid => "block-grid"
  | menu => "menu"
  | menuItem => "item"
  | center => "center"
  | spacer => "spacer"
  | wrapper => "wrapper"
  | line => "h-line"

def capitals : Component → String
  | button => "BUTTON"
  | row => "ROW"
  | columns => "COLUMNS"
  | container => "CONTAINER"
  | callout => "CALLOUT"
  | marker => "INKY"
  | blockGrid => "BLOCK_GRID"
  | menu => "MENU"
  | menuItem => "MENU_ITEM"
  | center => "CENTER"
  | spacer => "SPACER"
  | wrapper => "WRAPPER"
  | line => "H_LINE"

def ofKey? (key : String) : Option Component :=
  all.find? (·.key == key)

theorem mem_all (c : Component) : c ∈ all := by
  cases c <;> decide

theorem ofKey?_key (c : Component) : ofKey? c.key = some c := by
  cases c <;> decide

theorem key_of_ofKey? {key : String} {c : Component} (h : ofKey? key = some c) : c.key = key := by
  simpa using List.find?_some h

end Component

end Mailgrid
