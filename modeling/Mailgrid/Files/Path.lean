import Mailgrid.Text.Split

/-!
# Paths

A path is the list of its parts from the root. A part `..` is kept: which
directory it means is only known where the path is followed. Two slashes at the
start, no more and no fewer, are kept as well, though they mean the same root.
-/

namespace Mailgrid

structure Path where
  parts : List String
  /-- Does the path start with two slashes? -/
  doubled : Bool
  deriving DecidableEq

namespace Path

def root : Path :=
  ⟨[], false⟩

/-- The parts of a text, without empty ones and those that stay where they are. -/
def partsOf (text : String) : List String :=
  ((Text.splitParts '/' text.toList).map String.ofList).filter fun part => part ≠ "" ∧ part ≠ "."

def isAbsolute (text : String) : Bool :=
  text.toList.head? == some '/'

def isDoubled (text : String) : Bool :=
  (text.toList.takeWhile (· == '/')).length == 2

/-- The path of a text that starts at the root. -/
def ofText (text : String) : Path :=
  ⟨partsOf text, isDoubled text⟩

/-- The path that goes on with more parts. -/
def descend (p : Path) (parts : List String) : Path :=
  { p with parts := p.parts ++ parts }

/-- The path that a text means in a directory. -/
def join (p : Path) (text : String) : Path :=
  if isAbsolute text then ofText text else p.descend (partsOf text)

def child (p : Path) (part : String) : Path :=
  p.descend [part]

def parent (p : Path) : Path :=
  { p with parts := p.parts.dropLast }

def shown (p : Path) : String :=
  (if p.doubled then "//" else "/") ++ "/".intercalate p.parts

/-- Is the character of number nought in a part? -/
def holdsNought (p : Path) : Bool :=
  p.parts.any fun part => part.toList.contains '\x00'

/-- The parts of a path below another one. -/
def below (p base : Path) : List String :=
  p.parts.drop base.parts.length

/-- Parts as they are shown without a root. -/
def shownParts (parts : List String) : String :=
  if parts.isEmpty then "." else "/".intercalate parts

end Path

end Mailgrid
