import Mailgrid.Files.FileTree

/-!
# File patterns

A pattern selects paths in a directory, part by part. `**` stands for any
number of directories, `*` for any characters of a name, `?` for one, and
brackets for one of a set. A pattern that ends in a slash selects directories
only.
-/

namespace Mailgrid

inductive NamePiece where
  | any
  | one
  | char (c : Char)
  /-- One character that is, or is not, in one of the ranges. -/
  | range (inside : Bool) (ranges : List (Char × Char))
  deriving DecidableEq

inductive GlobPart where
  | exact (name : String)
  | parent
  | names (pieces : List NamePiece)
  | deep
  deriving DecidableEq

structure Glob where
  parts : List GlobPart
  directoriesOnly : Bool
  deriving DecidableEq

namespace Glob

-- ---------------------------------------------------------------------------
-- Names

def fits (inside : Bool) (ranges : List (Char × Char)) (c : Char) : Bool :=
  (ranges.any fun (lo, hi) => lo ≤ c && c ≤ hi) == inside

def nameFits : List NamePiece → List Char → Bool
  | [], s => s.isEmpty
  | .any :: pieces, [] => nameFits pieces []
  | .any :: pieces, c :: s => nameFits pieces (c :: s) || nameFits (.any :: pieces) s
  | _ :: _, [] => false
  | .one :: pieces, _ :: s => nameFits pieces s
  | .char d :: pieces, c :: s => c == d && nameFits pieces s
  | .range inside ranges :: pieces, c :: s => fits inside ranges c && nameFits pieces s
termination_by pieces s => pieces.length + s.length
decreasing_by all_goals simp only [List.length_cons]; omega

-- ---------------------------------------------------------------------------
-- Sets of characters

/-- The chunks of a set around the hyphens that make ranges. A hyphen can make one only if a
character stands before it, and two hyphens that do stand apart by more than one character. -/
def chunks (held : List Char) (skip : Nat) : List Char → List (List Char)
  | [] => [held]
  | c :: rest =>
    if skip = 0 ∧ c = '-' ∧ rest ≠ [] then held :: chunks [] 2 rest
    else chunks (held ++ [c]) (skip - 1) rest

/-- Drops a range whose ends are in the wrong order, from the last one on. -/
def dropEmpty (chunk : List Char) : List (List Char) → List (List Char)
  | [] => [chunk]
  | next :: rest =>
    match chunk.getLast?, next with
    | some lo, hi :: others =>
      if hi < lo then (chunk.dropLast ++ others) :: rest else chunk :: next :: rest
    | _, _ => chunk :: next :: rest

def single (c : Char) : Char × Char := (c, c)

/-- The ranges of chunks that are joined by hyphens; `from_` ends the chunk before. -/
def rangesFrom (from_ : Option Char) : List (List Char) → List (Char × Char)
  | [] => []
  | chunk :: rest =>
    let (joined, chunk) := match from_, chunk with
      | some lo, hi :: others => ([(lo, hi)], others)
      | _, _ => ([], chunk)
    if rest.isEmpty then joined ++ chunk.map single
    else joined ++ chunk.dropLast.map single ++
      rangesFrom ((chunk.getLast?).or (joined.getLast?.map (·.2))) rest

/-- The set between two brackets. -/
def setPiece (content : List Char) : NamePiece :=
  let ranges (s : List Char) : List (Char × Char) :=
    match s with
    | [] => []
    | c :: s => rangesFrom none ((chunks [c] 0 s).foldr dropEmpty [])
  match content with
  | '!' :: s => .range false (ranges s)
  | s => .range true (ranges s)

/-- A text without the character `c` at its start, if that is there. -/
def dropOne (c : Char) : List Char → List Char
  | [] => []
  | d :: s => if d = c then s else d :: s

theorem length_dropOne_le (c : Char) (s : List Char) : (dropOne c s).length ≤ s.length := by
  cases s with
  | nil => simp [dropOne]
  | cons d s => simp only [dropOne]; split <;> simp

/-- The text of a set up to its closing bracket, which does not count as the first character. -/
def setText? (s : List Char) : Option (List Char × List Char) :=
  match (dropOne ']' (dropOne '!' s)).dropWhile (· != ']') with
  | [] => none
  | _ :: rest => some (s.take (s.length - rest.length - 1), rest)

theorem length_of_setText? {s content rest : List Char} (h : setText? s = some (content, rest)) :
    rest.length < s.length := by
  unfold setText? at h
  split at h
  · cases h
  · rename_i hr
    cases h
    have h1 := (List.dropWhile_sublist (· != ']') (l := dropOne ']' (dropOne '!' s))).length_le
    have h2 := length_dropOne_le ']' (dropOne '!' s)
    have h3 := length_dropOne_le '!' s
    rw [hr] at h1
    simp only [List.length_cons] at h1; omega

def piecesOf (s : List Char) : List NamePiece :=
  match s with
  | [] => []
  | '*' :: rest => .any :: piecesOf rest
  | '?' :: rest => .one :: piecesOf rest
  | '[' :: rest =>
    match _h : setText? rest with
    | some (content, after) => setPiece content :: piecesOf after
    | none => .char '[' :: piecesOf rest
  | c :: rest => .char c :: piecesOf rest
termination_by s.length
decreasing_by
  all_goals simp only [List.length_cons]
  · omega
  · omega
  · exact Nat.lt_succ_of_lt (length_of_setText? _h)
  · omega
  · omega

-- ---------------------------------------------------------------------------
-- Patterns

def hasDoubleStar : List Char → Bool
  | '*' :: '*' :: _ => true
  | _ :: rest => hasDoubleStar rest
  | [] => false

def partOf (part : String) : Except Failure GlobPart :=
  let s := part.toList
  if part = "**" then pure .deep
  else if part = ".." then pure .parent
  else if hasDoubleStar s then throw .misplacedWildcard
  else if s.any (fun c => c == '*' || c == '?' || c == '[') then pure (.names (piecesOf s))
  else pure (.exact part)

def ofText (text : String) : Except Failure Glob := do
  if text.isEmpty then throw .emptyPattern
  if Path.isAbsolute text then throw .absolutePattern
  let parts ← (Path.partsOf text).mapM partOf
  let directoriesOnly := text.toList.getLast? == some '/'
  if parts.isEmpty then throw (if directoriesOnly then .patternOfSlash else .patternWithoutParts)
  pure ⟨parts, directoriesOnly⟩

-- ---------------------------------------------------------------------------
-- Selection

def selectFrom (t : FileTree) (directoriesOnly : Bool) :
    List GlobPart → Path → Except Failure (List Path)
  | [], p => pure [p]
  | part :: rest, p => do
    let inner := directoriesOnly || !rest.isEmpty
    match part with
    | .exact name =>
      if ← if inner then t.isDirectory (p.child name) else t.exists? (p.child name) then
        selectFrom t directoriesOnly rest (p.child name)
      else pure []
    | .parent => selectFrom t directoriesOnly rest (p.child "..")
    | .names pieces =>
      let found ← (t.names p).mapM fun name => do
        if nameFits pieces name.toList && (!inner || (← t.isDirectory (p.child name))) then
          selectFrom t directoriesOnly rest (p.child name)
        else pure []
      pure found.flatten
    | .deep =>
      let found ← (t.directories p).mapM (selectFrom t directoriesOnly rest)
      pure found.flatten.eraseDups

/-- The paths in a directory that a pattern selects. -/
def select (g : Glob) (t : FileTree) (directory : Path) : Except Failure (List Path) := do
  if ← t.isDirectory directory then selectFrom t g.directoriesOnly g.parts directory else pure []

/-- The selected files, ordered by their parts. -/
def files (g : Glob) (t : FileTree) (directory : Path) : Except Failure (List Path) := do
  let files ← (← g.select t directory).filterM t.isFile
  pure (files.mergeSort fun p q => !decide (q.parts < p.parts))

end Glob

end Mailgrid
