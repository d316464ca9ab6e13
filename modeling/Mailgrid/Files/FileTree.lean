import Mailgrid.Failure
import Mailgrid.Files.Path
import Mailgrid.Table

/-!
# File trees

Directories and files by their places, which are lists of names from the root.
A path is followed name by name, each in a directory that is there. Files hold
texts; a file whose bytes are no text is known to be there, but cannot be read.

No name is longer than 255 bytes and no path longer than 4095. To ask about one
that is longer is a failure, where to ask about what is not there is none. A
path with the character of number nought leads nowhere, and nothing can be read
from it or put there.
-/

namespace Mailgrid

inductive FileEntry where
  | directory
  | file (text : Option String)
  deriving DecidableEq

/-- What is there, apart from the root. -/
structure FileTree where
  entries : List (List String × FileEntry)
  deriving DecidableEq

namespace FileTree

def empty : FileTree := ⟨[]⟩

def get? (t : FileTree) (place : List String) : Option FileEntry :=
  if place.isEmpty then some .directory else t.entries.lookup place

def put (t : FileTree) (place : List String) (e : FileEntry) : FileTree :=
  ⟨Table.assign place e t.entries⟩

theorem get?_put (t : FileTree) {place : List String} (h : place ≠ []) (e : FileEntry) :
    (t.put place e).get? place = some e := by
  simp [get?, put, h, Table.lookup_assign]

theorem get?_put_of_ne (t : FileTree) {place other : List String} (h : other ≠ place)
    (e : FileEntry) : (t.put place e).get? other = t.get? other := by
  simp [get?, put, Table.lookup_assign_of_ne h]

def maxNameBytes : Nat := 255

def maxPathBytes : Nat := 4095

/-- The place that names lead to. -/
def follow (t : FileTree) (here : List String) : List String → Except Failure (List String)
  | [] => pure here
  | name :: rest =>
    match t.get? here with
    | some .directory =>
      if name.utf8ByteSize > maxNameBytes then throw .nameTooLong
      else t.follow (if name = ".." then here.dropLast else here ++ [name]) rest
    | some (.file _) => throw .notDirectory
    | none => throw .noSuchFile

def locate (t : FileTree) (p : Path) : Except Failure (List String) :=
  if p.holdsNought then throw .pathWithNought
  else if p.shown.utf8ByteSize > maxPathBytes then throw .nameTooLong
  else t.follow [] p.parts

/-- What a path leads to, if anything. -/
def find? (t : FileTree) (p : Path) : Except Failure (Option FileEntry) :=
  match t.locate p with
  | .ok place => pure (t.get? place)
  | .error .nameTooLong => throw .nameTooLong
  | .error _ => pure none

def exists? (t : FileTree) (p : Path) : Except Failure Bool := do
  return (← t.find? p).isSome

def isDirectory (t : FileTree) (p : Path) : Except Failure Bool := do
  match ← t.find? p with
  | some .directory => return true
  | _ => return false

def isFile (t : FileTree) (p : Path) : Except Failure Bool := do
  match ← t.find? p with
  | some (.file _) => return true
  | _ => return false

def read (t : FileTree) (p : Path) : Except Failure String := do
  match t.get? (← t.locate p) with
  | some (.file (some text)) => pure text
  | some (.file none) => throw .notUtf8
  | some .directory => throw .isDirectory
  | none => throw .noSuchFile

def write (t : FileTree) (p : Path) (text : String) : Except Failure FileTree := do
  let place ← t.locate p
  match t.get? place with
  | some .directory => throw .isDirectory
  | _ => pure (t.put place (.file (some text)))

/-- Makes the directories on the way from `here` that are not there. -/
def makeFrom (t : FileTree) (here : List String) : List String → Except Failure FileTree
  | [] => pure t
  | name :: rest => do
    let path := here ++ [name]
    match ← t.find? ⟨path, false⟩ with
    | some .directory => t.makeFrom path rest
    | some (.file _) => throw (if rest.isEmpty then .fileExists else .notDirectory)
    | none => do
      let place ← t.locate ⟨path, false⟩
      (t.put place .directory).makeFrom path rest

/-- Makes a directory and all that it is in. -/
def makeDirectory (t : FileTree) (p : Path) : Except Failure FileTree :=
  if p.holdsNought then throw .pathWithNought
  else t.makeFrom [] p.parts

/-- The places under a place, each by the names that lead there. -/
def under (t : FileTree) (place : List String) : List (List String × FileEntry) :=
  t.entries.filterMap fun (other, e) =>
    if place.isPrefixOf other && place.length < other.length then
      some (other.drop place.length, e)
    else none

/-- The names in a directory. -/
def names (t : FileTree) (p : Path) : List String :=
  match t.locate p with
  | .ok place => (t.under place).filterMap fun
      | ([name], _) => some name
      | _ => none
  | .error _ => []

/-- A directory and all directories in it, at any depth. -/
def directories (t : FileTree) (p : Path) : List Path :=
  match t.locate p with
  | .ok place => p :: (t.under place).filterMap fun
      | (names, .directory) => some (p.descend names)
      | _ => none
  | .error _ => [p]

/-- The texts of the files in a directory, at any depth, by their shown paths. -/
def texts (t : FileTree) (p : Path) : List (String × String) :=
  match t.locate p with
  | .ok place => (t.under place).filterMap fun
      | (names, .file (some text)) => some (Path.shownParts names, text)
      | _ => none
  | .error _ => []

end FileTree

end Mailgrid
