import Mailgrid.Markup.Reference
import Mailgrid.Text.Case

/-!
# Start tags

The reader of what follows a `<` and a letter. Attributes are separated by
blanks and slashes; a name may also follow a quoted value at once. A quote
that is never closed does not open a value: it becomes part of a name or of an
unquoted value, whichever the characters before it allow.
-/

namespace Mailgrid.Markup

open Mailgrid.Text (isBlank skipBlanks cutAtChar)

structure OpenTag where
  name : String
  attributes : List (String × String)
  /-- Does the tag end in a slash, so that it closes its element too? -/
  closed : Bool

namespace OpenTag

def isNameChar (c : Char) : Bool :=
  !(c == '\t' || c == '\n' || c == '\r' || c == '\x0c' || c == ' ' || c == '/' || c == '>' ||
    c == '\x00')

def isQuote (c : Char) : Bool :=
  c == '"' || c == '\''

def isAttributeChar (c : Char) : Bool :=
  !(isBlank c || c == '/' || c == '=' || c == '>')

def isUnquotedChar (c : Char) : Bool :=
  !(isBlank c || c == '>')

/-- Is a character, with what follows it, one that stands between attributes? The slash of a
closing `/>` is none. -/
def isGap (c : Char) (rest : List Char) : Bool :=
  isBlank c || (c == '/' && rest.head? != some '>')

/-- Does a text start with a gap between attributes? -/
def startsWithGap : List Char → Bool
  | [] => false
  | c :: rest => isGap c rest

/-- What follows the blanks and slashes at the start of a text. -/
def skipGaps : List Char → List Char
  | [] => []
  | c :: rest => if isGap c rest then skipGaps rest else c :: rest

/-- A value after the name of an attribute. -/
structure Value where
  text : List Char
  /-- May an attribute follow without a gap? -/
  open_ : Bool
  rest : List Char

def unquoted (s : List Char) : Value :=
  ⟨s.takeWhile isUnquotedChar, false, s.dropWhile isUnquotedChar⟩

/-- The value at `start`, which follows `signs` equals signs and perhaps blanks. -/
def valueAt? (signs : Nat) (padded : Bool) (start : List Char) : Option Value :=
  match start with
  | [] => some (unquoted [])
  | q :: body =>
    if isQuote q then
      match cutAtChar q body with
      | some (text, rest) => some ⟨text, true, rest⟩
      | none =>
        if padded then some ⟨[], true, start⟩
        else if 1 < signs then some ⟨'=' :: (unquoted start).text, false, (unquoted start).rest⟩
        else none
    else some (unquoted start)

/-- The value that the text after an attribute's name gives it. -/
def value? (s : List Char) : Option Value :=
  let signs := (skipBlanks s).takeWhile (· == '=')
  let after := (skipBlanks s).dropWhile (· == '=')
  if signs.isEmpty then none
  else valueAt? signs.length (after.head?.any isBlank) (skipBlanks after)

structure Attribute where
  name : List Char
  value : Value

/-- The attribute at the start of a text. Without a value its text is empty. -/
def attribute? : List Char → Option Attribute
  | [] => none
  | c :: s =>
    if isBlank c || c == '/' || c == '>' then none
    else
      let name := c :: s.takeWhile isAttributeChar
      let after := s.dropWhile isAttributeChar
      match value? after with
      | some v => some ⟨name, v⟩
      | none => some ⟨name, [], (name.getLast?.map isQuote).getD false, after⟩

def Attribute.pair (a : Attribute) : String × String :=
  (String.ofList (Text.lower a.name), String.ofList (Reference.resolve a.value.text))

theorem length_skipGaps_le (s : List Char) : (skipGaps s).length ≤ s.length := by
  induction s with
  | nil => simp [skipGaps]
  | cons c rest ih =>
    rw [skipGaps]
    split
    · exact Nat.le_succ_of_le ih
    · exact Nat.le_refl _

theorem length_le_of_cutAtChar {c : Char} {s before after : List Char}
    (h : cutAtChar c s = some (before, after)) : after.length < s.length := by
  simp [Text.append_of_cutAtChar h]; omega

theorem length_unquoted_le (s : List Char) : (unquoted s).rest.length ≤ s.length :=
  Text.length_dropWhile_le _ s

theorem length_le_of_valueAt? {signs : Nat} {padded : Bool} {start : List Char} {v : Value}
    (h : valueAt? signs padded start = some v) : v.rest.length ≤ start.length := by
  unfold valueAt? at h
  split at h
  · cases h; exact length_unquoted_le []
  · split at h
    · split at h
      · rename_i hc; cases h; exact Nat.le_succ_of_le (Nat.le_of_lt (length_le_of_cutAtChar hc))
      · split at h
        · cases h; exact Nat.le_refl _
        · split at h
          · cases h; exact length_unquoted_le _
          · cases h
    · cases h; exact length_unquoted_le _

theorem length_le_of_value? {s : List Char} {v : Value} (h : value? s = some v) :
    v.rest.length ≤ s.length := by
  simp only [value?] at h
  split at h
  · cases h
  · refine Nat.le_trans (length_le_of_valueAt? h) (Nat.le_trans (Text.length_skipBlanks_le _) ?_)
    exact Nat.le_trans (Text.length_dropWhile_le _ _) (Text.length_skipBlanks_le s)

theorem length_lt_of_attribute? {s : List Char} {a : Attribute} (h : attribute? s = some a) :
    a.value.rest.length < s.length := by
  cases s with
  | nil => simp [attribute?] at h
  | cons c s =>
    simp only [attribute?] at h
    split at h
    · cases h
    · have hd := Text.length_dropWhile_le isAttributeChar s
      split at h
      · rename_i hv; cases h
        exact Nat.lt_succ_of_le (Nat.le_trans (length_le_of_value? hv) hd)
      · cases h; exact Nat.lt_succ_of_le hd

/-- The attributes from here on, and what follows them; `touching` tells that one may begin. -/
def attributesOf (touching : Bool) (s : List Char) : List Attribute × List Char :=
  if touching then
    match _h : attribute? s with
    | some a =>
      let rest := skipGaps a.value.rest
      let (more, after) := attributesOf (a.value.open_ || startsWithGap a.value.rest) rest
      (a :: more, after)
    | none => ([], s)
  else ([], s)
termination_by s.length
decreasing_by
  exact Nat.lt_of_le_of_lt (length_skipGaps_le _) (length_lt_of_attribute? _h)

theorem length_attributesOf_le (touching : Bool) (s : List Char) :
    (attributesOf touching s).2.length ≤ s.length := by
  fun_induction attributesOf touching s with
  | case1 s a h rest more after he ih =>
    rw [he] at ih
    refine Nat.le_trans ih (Nat.le_of_lt ?_)
    exact Nat.lt_of_le_of_lt (length_skipGaps_le _) (length_lt_of_attribute? h)
  | case2 => exact Nat.le_refl _
  | case3 => exact Nat.le_refl _

/-- What stands after a `<` that a letter follows. -/
inductive Reading where
  | complete (tag : OpenTag) (rest : List Char)
  | unfinished
  /-- No tag: the text before `rest` is to be read as it stands. -/
  | broken (rest : List Char)
  /-- An attribute has a reference by a number that cannot be read. -/
  | refused

def read (s : List Char) : Reading :=
  let name := s.takeWhile isNameChar
  let after := s.dropWhile isNameChar
  let start := skipGaps after
  let touching := startsWithGap after ||
    (name.getLast?.map fun c => isQuote c || isBlank c).getD false
  let (found, ending) := attributesOf touching start
  let isRefused := found.any fun a => Reference.holdsTooLong a.value.text
  let tag (closed : Bool) : OpenTag := ⟨String.ofList (Text.lower name), found.map (·.pair), closed⟩
  match ending with
  | [] => .unfinished
  | '>' :: rest => if isRefused then .refused else .complete (tag false) rest
  | '/' :: '>' :: rest => if isRefused then .refused else .complete (tag true) rest
  | c :: rest =>
    if c.isAlpha || c == '=' then .unfinished
    else if isRefused then .refused
    else .broken (c :: rest)

theorem length_ending_le (s : List Char) (touching : Bool) :
    (attributesOf touching (skipGaps (s.dropWhile isNameChar))).2.length ≤ s.length :=
  Nat.le_trans (length_attributesOf_le _ _)
    (Nat.le_trans (length_skipGaps_le _) (Text.length_dropWhile_le _ s))

theorem length_le_of_read_complete {s rest : List Char} {tag : OpenTag}
    (h : read s = .complete tag rest) : rest.length ≤ s.length := by
  simp only [read] at h
  split at h
  · cases h
  · rename_i he
    split at h
    · cases h
    · cases h
      refine Nat.le_trans ?_ (he ▸ length_ending_le s _); simp
  · rename_i he
    split at h
    · cases h
    · cases h
      refine Nat.le_trans ?_ (he ▸ length_ending_le s _); simp only [List.length_cons]; omega
  · split at h
    · cases h
    · split at h <;> cases h

theorem length_le_of_read_broken {s rest : List Char} (h : read s = .broken rest) :
    rest.length ≤ s.length := by
  simp only [read] at h
  split at h
  · cases h
  · split at h <;> cases h
  · split at h <;> cases h
  · rename_i he
    split at h
    · cases h
    · split at h
      · cases h
      · cases h; exact he ▸ length_ending_le s _

end OpenTag

end Mailgrid.Markup
