import Mailgrid.Text.Case
import Mailgrid.Text.Fold
import Mailgrid.Text.Search

/-!
# Void elements

Elements that never have content, and how their tags are written. Before a
document is read, every void start tag gets a slash of its own, so that nothing
can come inside. In the written document a void element is one tag with a
slash, and every other element has an end tag.

All this works on the text alone: a tag reaches to the first `>`.
-/

namespace Mailgrid.VoidElement

open Mailgrid.Text (isBlank skipBlanks trimEnd cutAtChar)

def names : List String :=
  ["area", "base", "br", "col", "embed", "hr", "img", "input", "link", "meta", "param", "source",
    "track", "wbr"]

/-- A tag as it stands at the start of a text: its name, all else before its `>`, and what comes
behind. -/
structure Spot where
  name : List Char
  inner : List Char
  rest : List Char

def Spot.whole (spot : Spot) : List Char :=
  '<' :: spot.name ++ spot.inner ++ ['>']

/-- The name of a void element that a text starts with, in its own spelling. -/
def spelledName? (s : List Char) : Option (List Char × List Char) :=
  names.findSome? fun name => Text.spelling? name.toList s

/-- What a tag holds behind its name is nothing or starts with a blank. -/
def isApart : List Char → Bool
  | [] => true
  | c :: _ => isBlank c

/-- A start tag of a void element. -/
def startTag? : List Char → Option Spot
  | '<' :: s =>
    match spelledName? s with
    | none => none
    | some (name, after) =>
      match cutAtChar '>' after with
      | some (inner, rest) => if isApart inner then some ⟨name, inner, rest⟩ else none
      | none => none
  | _ => none

/-- What follows the name in an end tag whose name is this one or begins with it. -/
def afterEndName? (name s : List Char) : Option (List Char) :=
  match skipBlanks s with
  | '<' :: '/' :: rest => Text.afterFolded? name rest
  | _ => none

/-- A void start tag that no end tag of its own follows. -/
def lone? (s : List Char) : Option Spot :=
  match startTag? s with
  | some spot => if (afterEndName? spot.name spot.rest).isSome then none else some spot
  | none => none

/-- A void start tag with the end tag that follows it. -/
def paired? (s : List Char) : Option Spot :=
  match startTag? s with
  | none => none
  | some spot =>
    match afterEndName? spot.name spot.rest with
    | none => none
    | some behind =>
      match skipBlanks behind with
      | '>' :: rest => some { spot with rest }
      | _ => none

def isNameChar (c : Char) : Bool :=
  c.isAlphanum || c == '-'

/-- A tag of any name that ends in a slash. -/
def closed? : List Char → Option Spot
  | '<' :: c :: s =>
    if c.isAlpha then
      match cutAtChar '>' (s.dropWhile isNameChar) with
      | some (inner, rest) =>
        if inner.getLast? = some '/' ∧ isApart inner.dropLast = true then
          some ⟨c :: s.takeWhile isNameChar, inner, rest⟩
        else none
      | none => none
    else none
  | _ => none

theorem rest_of_startTag? {s : List Char} {spot : Spot} (h : startTag? s = some spot) :
    spot.rest.length < s.length := by
  unfold startTag? at h
  split at h
  · split at h
    · cases h
    · rename_i hn
      obtain ⟨name, -, hs⟩ := List.exists_of_findSome?_eq_some hn
      have hl := (Text.length_of_spelling? hs).1
      split at h
      · rename_i hc
        split at h
        · cases h
          have hr := congrArg List.length (Text.append_of_cutAtChar hc)
          simp only [List.length_append, List.length_cons] at *; omega
        · cases h
      · cases h
  · cases h

theorem rest_of_lone? {s : List Char} {spot : Spot} (h : lone? s = some spot) :
    spot.rest.length < s.length := by
  unfold lone? at h
  split at h
  · rename_i hs
    split at h
    · cases h
    · cases h; exact rest_of_startTag? hs
  · cases h

theorem length_of_afterEndName? {name s rest : List Char} (h : afterEndName? name s = some rest) :
    rest.length ≤ s.length := by
  unfold afterEndName? at h
  split at h
  · rename_i r hr
    have h1 := Text.length_skipBlanks_le s
    have h2 := Text.length_le_of_afterFolded? h
    rw [hr] at h1
    simp only [List.length_cons] at h1; omega
  · cases h

theorem rest_of_paired? {s : List Char} {spot : Spot} (h : paired? s = some spot) :
    spot.rest.length < s.length := by
  unfold paired? at h
  split at h
  · cases h
  · rename_i hs
    split at h
    · cases h
    · rename_i behind hb
      split at h
      · rename_i hr; cases h
        have h1 := rest_of_startTag? hs
        have h2 := length_of_afterEndName? hb
        have h3 := Text.length_skipBlanks_le behind
        rw [hr] at h3
        simp only [List.length_cons] at h3 ⊢; omega
      · cases h

theorem rest_of_closed? {s : List Char} {spot : Spot} (h : closed? s = some spot) :
    spot.rest.length < s.length := by
  unfold closed? at h
  split at h
  · rename_i c s
    split at h
    · split at h
      · rename_i hc
        split at h
        · cases h
          have h1 := congrArg List.length (Text.append_of_cutAtChar hc)
          have h2 := Text.length_dropWhile_le isNameChar s
          simp only [List.length_append, List.length_cons] at *; omega
        · cases h
      · cases h
    · cases h
  · cases h

-- ---------------------------------------------------------------------------
-- The three changes

/-- Every spot of a kind written anew, from left to right. -/
def replaceSpots (look : List Char → Option Spot)
    (shorter : ∀ {s : List Char} {spot : Spot}, look s = some spot → spot.rest.length < s.length)
    (write : Spot → List Char) : List Char → List Char :=
  Text.substitute fun s =>
    match h : look s with
    | some spot => some ⟨write spot, spot.rest, shorter h⟩
    | none => none

def withSlash (name inner : List Char) : List Char :=
  '<' :: name ++ inner ++ " />".toList

def dropSlashes (s : List Char) : List Char :=
  (s.reverse.dropWhile (· == '/')).reverse

/-- A lone void start tag gets a slash unless it has one. -/
def closeLone : List Char → List Char :=
  replaceSpots lone? rest_of_lone? fun spot =>
    if (trimEnd spot.inner).getLast? = some '/' then spot.whole
    else withSlash spot.name spot.inner

/-- A void start tag and its end tag become one tag. -/
def joinPaired : List Char → List Char :=
  replaceSpots paired? rest_of_paired? fun spot =>
    withSlash spot.name (trimEnd (dropSlashes (trimEnd spot.inner)))

/-- What a tag holds before its slash, without the blanks between; blanks alone are kept. -/
def beforeSlash (inner : List Char) : List Char :=
  let held := inner.dropLast
  if (trimEnd held).isEmpty then held else trimEnd held

/-- A tag with a slash that is not void becomes a start tag and an end tag. -/
def openClosed : List Char → List Char :=
  replaceSpots closed? rest_of_closed? fun spot =>
    if names.contains (Text.lowerString (String.ofList spot.name)) then spot.whole
    else '<' :: spot.name ++ beforeSlash spot.inner ++ '>' :: '<' :: '/' :: spot.name ++ ['>']

/-- A document with a slash in each void start tag, as it is read. -/
def normalize (text : String) : String :=
  String.ofList (closeLone text.toList)

/-- A written document with one tag for each void element and two for every other. -/
def canonicalize (text : String) : String :=
  String.ofList (openClosed (closeLone (joinPaired text.toList)))

end Mailgrid.VoidElement
