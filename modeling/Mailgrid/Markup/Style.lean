import Mailgrid.Markup.Forest
import Mailgrid.Markup.Reference.Names
import Mailgrid.Text.Digit
import Mailgrid.Text.Letter
import Mailgrid.Text.Search

/-!
# Styles

How the characters of texts and values are written, in which order attributes
stand, and how void elements end. `Style.write` is the written form of a forest.
-/

namespace Mailgrid.Markup

/-- Which characters are written as references. -/
inductive Escape where
  | nothing
  /-- Ampersands and angle brackets. -/
  | markup
  /-- All that has a name. -/
  | named
  /-- All that has a name; an ampersand only where it could be taken for a reference. -/
  | namedLoose
  deriving DecidableEq

structure Style where
  escape : Escape
  /-- Are attributes sorted by name? -/
  sorted : Bool
  /-- Does a void element end in a slash? -/
  slash : Bool
  /-- Is an empty attribute written as its bare name? -/
  bare : Bool
  deriving DecidableEq

def Escape.markupChar (c : Char) : List Char :=
  if c = '&' then "&amp;".toList
  else if c = '<' then "&lt;".toList
  else if c = '>' then "&gt;".toList
  else [c]

/-- Could the text after an ampersand make it a reference? -/
def Escape.isReference (s : List Char) : Bool :=
  let ends (isOne : Char → Bool) (s : List Char) : Bool :=
    !(s.takeWhile isOne).isEmpty && (s.dropWhile isOne).head? == some ';'
  match s with
  | '#' :: x :: rest =>
    ends Text.isDigit (x :: rest) ||
      ((x == 'x' || x == 'X') &&
        ends (fun c => c.isDigit || ('a' ≤ c.toLower && c.toLower ≤ 'f')) rest)
  | s => ends Text.isWordCharacter s

/-- The name of the two or the one character that a text starts with. -/
def Escape.nameMatch? : (s : List Char) → Option (Text.Match (List Char) s)
  | [] => none
  | [c] => (Reference.nameOf? [c]).map fun name => ⟨'&' :: name ++ [';'], [], Nat.lt_add_one _⟩
  | c :: d :: rest =>
    ((Reference.nameOf? [c, d]).map fun name =>
      ⟨'&' :: name ++ [';'], rest, by simp only [List.length_cons]; omega⟩) <|>
    (Reference.nameOf? [c]).map fun name => ⟨'&' :: name ++ [';'], d :: rest, Nat.lt_add_one _⟩

/-- Only what may have a name is looked up: what is not ASCII, or stands for markup. -/
def Escape.mayBeNamed (s : List Char) : Bool :=
  match s with
  | [] => false
  | [c] => 0x80 ≤ c.toNat || c == '<' || c == '>' || c == '&'
  | c :: d :: _ => 0x80 ≤ c.toNat || 0x80 ≤ d.toNat || c == '<' || c == '>' || c == '&'

def Escape.namedMatch? (loose : Bool) (s : List Char) : Option (Text.Match (List Char) s) :=
  if loose && s.head? == some '&' && !Escape.isReference (s.drop 1) then none
  else if Escape.mayBeNamed s then Escape.nameMatch? s
  else none

def Escape.apply (escape : Escape) (s : List Char) : List Char :=
  match escape with
  | .nothing => s
  | .markup => s.flatMap Escape.markupChar
  | .named => Text.substitute (Escape.namedMatch? false) s
  | .namedLoose => Text.substitute (Escape.namedMatch? true) s

/-- The character set that texts are written in. -/
def writtenCharset : String := "utf-8"

/-- The part of a content type up to the label of its character set, which starts a line or
follows a semicolon. -/
def labelAt? (lineStart : Bool) (s : List Char) : Option (List Char × List Char) :=
  let after := Text.skipBlanks s
  match if lineStart then Text.after? "charset=".toList after else none with
  | some rest => some (s.take (s.length - rest.length), rest)
  | none =>
    match s with
    | ';' :: s =>
      (Text.after? "charset=".toList (Text.skipBlanks s)).map fun rest =>
        (';' :: s.take (s.length - rest.length), rest)
    | _ => none

theorem length_of_labelAt? {lineStart : Bool} {s head rest : List Char}
    (h : labelAt? lineStart s = some (head, rest)) : rest.length < s.length := by
  have key : ∀ {s rest : List Char},
      Text.after? "charset=".toList (Text.skipBlanks s) = some rest → rest.length < s.length := by
    intro s rest h
    have h1 := Text.length_skipBlanks_le s
    rw [Text.append_of_after? h] at h1
    simp at h1; omega
  simp only [labelAt?] at h
  split at h
  · rename_i hs; cases h
    split at hs
    · exact key hs
    · cases hs
  · split at h
    · simp only [Option.map_eq_some_iff, Prod.mk.injEq] at h
      obtain ⟨r, hr, -, rfl⟩ := h
      exact Nat.lt_succ_of_lt (key hr)
    · cases h

/-- A content type with every label of a character set replaced. -/
def relabel (lineStart : Bool) (s : List Char) : List Char :=
  match s with
  | [] => []
  | c :: tail =>
    match _h : labelAt? lineStart (c :: tail) with
    | some (head, rest) =>
      head ++ writtenCharset.toList ++ relabel false (rest.dropWhile (· != ';'))
    | none => c :: relabel (c == '\n') tail
termination_by s.length
decreasing_by
  · exact Nat.lt_of_le_of_lt (Text.length_dropWhile_le _ _) (length_of_labelAt? _h)
  · simp

def AttributeValue.printed : AttributeValue → List Char
  | .text value => value.toList
  | .words values => (" ".intercalate values).toList
  | .charset _ => writtenCharset.toList
  | .contentType value => relabel true value.toList

def AttributeValue.isEmptyText : AttributeValue → Bool
  | .words _ => false
  | value => value.isEmpty

/-- A value between double quotes; between single ones if only that saves escaping a quote. -/
def inQuotes (value : List Char) : List Char :=
  if value.contains '"' then
    if value.contains '\'' then
      '"' :: value.flatMap (fun c => if c = '"' then "&quot;".toList else [c]) ++ ['"']
    else '\'' :: value ++ ['\'']
  else '"' :: value ++ ['"']

namespace Style

def attributeText (style : Style) : String × AttributeValue → List Char
  | (name, value) =>
    if style.bare && value.isEmptyText then ' ' :: name.toList
    else ' ' :: name.toList ++ '=' :: inQuotes (style.escape.apply value.printed)

def attributes (style : Style) (list : List (String × AttributeValue)) : List Char :=
  (if style.sorted then list.mergeSort (fun a b => !(b.1 < a.1)) else list).flatMap
    style.attributeText

/-- Text is not escaped inside the elements whose content is literal. -/
def text (style : Style) (parent : Option String) (content : List Char) : List Char :=
  if parent = some "script" ∨ parent = some "style" then content else style.escape.apply content

def leaf (style : Style) (parent : Option String) (kind : LeafKind) (content : String) :
    List Char :=
  let content := content.toList
  match kind with
  | .text _ => style.text parent content
  | .comment => "<!--".toList ++ content ++ "-->".toList
  | .cdata => "<![CDATA[".toList ++ content ++ "]]>".toList
  | .instruction => "<?".toList ++ content ++ ['>']
  | .declaration => "<?".toList ++ content ++ "?>".toList
  | .docType => "<!DOCTYPE ".toList ++ content ++ ['>', '\n']
  | .leadingDocType => "<!DOCTYPE ".toList ++ content ++ ['>']

def startTag (style : Style) (tag : Tag) (ending : List Char) : List Char :=
  '<' :: tag.name.toList ++ style.attributes tag.attributes ++ ending

def endTag (tag : Tag) : List Char :=
  '<' :: '/' :: tag.name.toList ++ ['>']

def write {α : Type} (style : Style) (parent : Option String) : Forest α → List Char
  | .nil => []
  | .leaf _ kind content next => style.leaf parent kind content ++ style.write parent next
  | .element _ tag .nil next =>
    (if tag.void then style.startTag tag (if style.slash then ['/', '>'] else ['>'])
      else style.startTag tag ['>'] ++ endTag tag) ++ style.write parent next
  | .element _ tag children next =>
    style.startTag tag ['>'] ++ style.write (some tag.name) children ++ endTag tag ++
      style.write parent next

theorem write_append {α : Type} (style : Style) (parent : Option String) (f g : Forest α) :
    style.write parent (f ++ g) = style.write parent f ++ style.write parent g := by
  induction f with
  | nil => rfl
  | leaf _ _ _ _ ih => simp [write, ih]
  | element _ _ children _ _ ih => cases children <;> simp [write, ih]

end Style

end Mailgrid.Markup
