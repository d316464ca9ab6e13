import Mailgrid.Markup.Forest
import Mailgrid.Text.Case
import Mailgrid.Text.Letter
import Mailgrid.Text.Search

/-!
# Spellings of names

Reading a document puts its names in lower case. The names that are written in
mixed case are therefore collected beforehand, each as it is first spelled, and
put back into the tree that is written. The collection looks at the text
alone: at everything between `<` and `>`, and of that at all but quoted values.
-/

namespace Mailgrid.Markup

open Mailgrid.Text (isBlank skipBlanks cutAtChar)

/-- For names in lower case, the spellings that they go back to. -/
structure Spelling where
  tags : List (String × String)
  attributes : List (String × String)
  deriving DecidableEq

namespace Spelling

def isNameChar (c : Char) : Bool :=
  Text.isWordCharacter c || c == ':' || c == '.' || c == '-'

/-- The rest of a start tag with each quoted value as one space, and what follows its `>`. -/
def unquotedRest? : List Char → Option (List Char × List Char)
  | [] => none
  | c :: s =>
    if c = '>' then some ([], s)
    else if c = '"' ∨ c = '\'' then
      match _h : cutAtChar c s with
      | some (_, after) => (unquotedRest? after).map fun (held, rest) => (' ' :: held, rest)
      | none => none
    else (unquotedRest? s).map fun (held, rest) => (c :: held, rest)
termination_by s => s.length
decreasing_by
  · simp [Text.append_of_cutAtChar _h]; omega
  · simp

theorem length_of_unquotedRest? {s held rest : List Char}
    (h : unquotedRest? s = some (held, rest)) : rest.length < s.length := by
  fun_induction unquotedRest? s generalizing held with
  | case1 => cases h
  | case2 => cases h; simp
  | case3 c s _ _ inner after hc ih =>
    simp only [Option.map_eq_some_iff, Prod.mk.injEq] at h
    obtain ⟨⟨held, r⟩, hr, -, rfl⟩ := h
    have h1 : r.length < after.length := ih hr
    simp [Text.append_of_cutAtChar hc]; omega
  | case4 => cases h
  | case5 c s _ _ ih =>
    simp only [Option.map_eq_some_iff, Prod.mk.injEq] at h
    obtain ⟨⟨held, r⟩, hr, -, rfl⟩ := h
    exact Nat.lt_succ_of_lt (ih hr)

/-- The name that a text starts with, if that starts with a letter of ASCII. -/
def name? : List Char → Option (List Char)
  | c :: s => if c.isAlpha then some (c :: s.takeWhile isNameChar) else none
  | [] => none

/-- The name of a start tag, the rest of the tag without its values, and what follows. -/
def startTag? : List Char → Option (List Char × List Char × List Char)
  | '<' :: s =>
    match name? (skipBlanks s) with
    | some name =>
      (unquotedRest? ((skipBlanks s).drop name.length)).map fun (held, rest) => (name, held, rest)
    | none => none
  | _ => none

theorem length_of_startTag? {s name held rest : List Char}
    (h : startTag? s = some (name, held, rest)) : rest.length < s.length := by
  unfold startTag? at h
  split at h
  · rename_i s
    split at h
    · simp only [Option.map_eq_some_iff, Prod.mk.injEq] at h
      obtain ⟨⟨held, r⟩, hr, -, -, rfl⟩ := h
      have h1 := length_of_unquotedRest? hr
      have h2 := Text.length_skipBlanks_le s
      simp only [List.length_drop, List.length_cons] at *; omega
    · cases h
  · cases h

/-- The name of an end tag. -/
def endTag? : List Char → Option (List Char)
  | '<' :: s =>
    match skipBlanks s with
    | '/' :: after => name? (skipBlanks after)
    | _ => none
  | _ => none

/-- A name behind a blank. -/
def attribute? : List Char → Option (List Char)
  | b :: c :: s =>
    if isBlank b && (c.isAlpha || c == '_' || c == ':') then some (c :: s.takeWhile isNameChar)
    else none
  | _ => none

def startTags : List Char → List (List Char × List Char) :=
  Text.findAll fun s =>
    match h : startTag? s with
    | some (name, held, rest) => some ⟨(name, held), rest, length_of_startTag? h⟩
    | none => none

/-- What `look` finds at the places of a text. -/
def everywhere (look : List Char → Option α) : List Char → List α
  | [] => []
  | c :: s => (look (c :: s)).toList ++ everywhere look s

/-- Keeps a spelling in mixed case unless one of its name is known. -/
def note (table : List (String × String)) (spelled : List Char) : List (String × String) :=
  let name := String.ofList (Text.lower spelled)
  if Text.isMixedCase spelled && (table.lookup name).isNone then
    table ++ [(name, String.ofList spelled)]
  else table

/-- The spellings in a text. Start tags come before end tags, wherever they stand. -/
def ofText (text : String) : Spelling :=
  let s := text.toList
  let tags := startTags s
  ⟨(tags.map (·.1) ++ everywhere endTag? s).foldl note [],
    (tags.flatMap fun (_, held) => everywhere attribute? held).foldl note []⟩

def empty : Spelling := ⟨[], []⟩

/-- The spelling of a name; a name that is not known stays. -/
def respell (table : List (String × String)) (name : String) : String :=
  (table.lookup name).getD name

/-- Gives a tag and its attributes their spellings. -/
def restore (s : Spelling) (t : Tag) : Tag :=
  { t with
    name := respell s.tags t.name
    attributes := Table.ofList (t.attributes.map fun (name, value) =>
      (respell s.attributes name, value)) }

end Spelling

end Mailgrid.Markup
