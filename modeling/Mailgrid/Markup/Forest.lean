import Mailgrid.Table
import Mailgrid.Text.Quoted

/-!
# Forests

A forest is a sequence of sibling nodes, each with a mark: the nodes of a
document are marked with their identities, freshly read ones with nothing.
Document order is the order of the start tags. The queries answer elements with
their tags and children; `place?` also tells the element siblings of a node,
and `replace` and `adapt` change one place and nothing else.
-/

namespace Mailgrid.Markup

/-- The value of an attribute. A label of the character set is printed as the one that texts
are written in; so is a label within a content type. -/
inductive AttributeValue where
  | text (value : String)
  | words (values : List String)
  | charset (value : String)
  | contentType (value : String)
  deriving DecidableEq

/-- The value as it reads in a text. -/
def AttributeValue.shown : AttributeValue → String
  | .text value => value
  | .words values => Text.bracketed (values.map Text.quotedString)
  | .charset value => value
  | .contentType value => value

def AttributeValue.isEmpty : AttributeValue → Bool
  | .text value => value.isEmpty
  | .words values => values.isEmpty
  | .charset value => value.isEmpty
  | .contentType value => value.isEmpty

structure Tag where
  name : String
  attributes : List (String × AttributeValue)
  /-- Is the element written without an end tag while it has no content? -/
  void : Bool
  deriving DecidableEq

namespace Tag

def get? (t : Tag) (name : String) : Option AttributeValue :=
  t.attributes.lookup name

/-- The value of an attribute that is there and not empty. -/
def filled? (t : Tag) (name : String) : Option String :=
  match t.get? name with
  | some value => if value.isEmpty then none else some value.shown
  | none => none

/-- Gives an attribute a value, at its old place if it has one. -/
def set (t : Tag) (name : String) (value : AttributeValue) : Tag :=
  { t with attributes := Table.assign name value t.attributes }

@[simp] theorem name_set (t : Tag) (name : String) (value : AttributeValue) :
    (t.set name value).name = t.name := rfl

@[simp] theorem get?_set (t : Tag) (name : String) (value : AttributeValue) :
    (t.set name value).get? name = some value :=
  Table.lookup_assign name value t.attributes

theorem get?_set_of_ne (t : Tag) {name other : String} (h : other ≠ name)
    (value : AttributeValue) : (t.set name value).get? other = t.get? other :=
  Table.lookup_assign_of_ne h value t.attributes

end Tag

/-- Some elements have texts of their own kinds. They are written like all others. -/
inductive TextKind where
  | plain
  | script
  | stylesheet
  | template
  | rubyText
  | rubyParenthesis
  deriving DecidableEq

inductive LeafKind where
  | text (kind : TextKind)
  | comment
  | cdata
  | instruction
  | declaration
  | docType
  /-- A document type at the top of a document, which no line break follows. -/
  | leadingDocType
  deriving DecidableEq

inductive Forest (α : Type) where
  | nil
  | leaf (mark : α) (kind : LeafKind) (content : String) (next : Forest α)
  | element (mark : α) (tag : Tag) (children next : Forest α)
  deriving DecidableEq

structure Element (α : Type) where
  mark : α
  tag : Tag
  children : Forest α

/-- A node without its mark and siblings. -/
inductive Node (α : Type) where
  | leaf (kind : LeafKind) (content : String)
  | element (tag : Tag) (children : Forest α)

/-- A node among its siblings; of these, the elements. -/
structure Place (α : Type) where
  mark : α
  node : Node α
  /-- The nearest first. -/
  before : List (Element α)
  after : List (Element α)

namespace Forest

variable {α β : Type}

def append : Forest α → Forest α → Forest α
  | nil, more => more
  | leaf m kind content next, more => leaf m kind content (next.append more)
  | element m tag children next, more => element m tag children (next.append more)

instance : Append (Forest α) := ⟨append⟩

@[simp] theorem nil_append (f : Forest α) : nil ++ f = f := rfl

@[simp] theorem leaf_append (m : α) (kind : LeafKind) (content : String) (next f : Forest α) :
    leaf m kind content next ++ f = leaf m kind content (next ++ f) := rfl

@[simp] theorem element_append (m : α) (tag : Tag) (children next f : Forest α) :
    element m tag children next ++ f = element m tag children (next ++ f) := rfl

@[simp] theorem append_nil (f : Forest α) : f ++ nil = f := by
  induction f with
  | nil => rfl
  | leaf _ _ _ _ ih => simp [ih]
  | element _ _ _ _ _ ih => simp [ih]

theorem append_assoc (f g h : Forest α) : f ++ g ++ h = f ++ (g ++ h) := by
  induction f with
  | nil => rfl
  | leaf _ _ _ _ ih => simp [ih]
  | element _ _ _ _ _ ih => simp [ih]

def map (f : α → β) : Forest α → Forest β
  | nil => nil
  | leaf m kind content next => leaf (f m) kind content (next.map f)
  | element m tag children next => element (f m) tag (children.map f) (next.map f)

/-- The marks of all nodes, in document order. -/
def marks : Forest α → List α
  | nil => []
  | leaf m _ _ next => m :: next.marks
  | element m _ children next => m :: (children.marks ++ next.marks)

/-- The marks of the outermost nodes. -/
def topMarks : Forest α → List α
  | nil => []
  | leaf m _ _ next => m :: next.topMarks
  | element m _ _ next => m :: next.topMarks

/-- The outermost elements. -/
def elements : Forest α → List (Element α)
  | nil => []
  | leaf _ _ _ next => next.elements
  | element m tag children next => ⟨m, tag, children⟩ :: next.elements

/-- All elements, in document order. -/
def descendants : Forest α → List (Element α)
  | nil => []
  | leaf _ _ _ next => next.descendants
  | element m tag children next =>
    ⟨m, tag, children⟩ :: (children.descendants ++ next.descendants)

def placeAfter? (wanted : α → Node α → Bool) (before : List (Element α)) :
    Forest α → Option (Place α)
  | nil => none
  | leaf m kind content next =>
    if wanted m (.leaf kind content) then some ⟨m, .leaf kind content, before, next.elements⟩
    else next.placeAfter? wanted before
  | element m tag children next =>
    if wanted m (.element tag children) then
      some ⟨m, .element tag children, before, next.elements⟩
    else
      match children.placeAfter? wanted [] with
      | some place => some place
      | none => next.placeAfter? wanted (⟨m, tag, children⟩ :: before)

/-- The first wanted node in document order, among its siblings. -/
def place? (wanted : α → Node α → Bool) (f : Forest α) : Option (Place α) :=
  f.placeAfter? wanted []

/-- Puts a forest where the node with the wanted mark stands. -/
def replace (wanted : α → Bool) : Forest α → Forest α → Forest α
  | nil, _ => nil
  | leaf m kind content next, new =>
    if wanted m then new ++ next else leaf m kind content (next.replace wanted new)
  | element m tag children next, new =>
    if wanted m then new ++ next
    else element m tag (children.replace wanted new) (next.replace wanted new)

/-- Changes the tag and the children of the element with the wanted mark. -/
def adapt (wanted : α → Bool) (change : Tag → Forest α → Tag × Forest α) : Forest α → Forest α
  | nil => nil
  | leaf m kind content next => leaf m kind content (next.adapt wanted change)
  | element m tag children next =>
    if wanted m then
      let (tag, children) := change tag children
      element m tag children next
    else element m tag (children.adapt wanted change) (next.adapt wanted change)

/-- Changes the tags of the outermost elements. -/
def mapTop (change : Tag → Tag) : Forest α → Forest α
  | nil => nil
  | leaf m kind content next => leaf m kind content (next.mapTop change)
  | element m tag children next => element m (change tag) children (next.mapTop change)

/-- Changes the tags of all elements. -/
def mapTags (change : Tag → Tag) : Forest α → Forest α
  | nil => nil
  | leaf m kind content next => leaf m kind content (next.mapTags change)
  | element m tag children next =>
    element m (change tag) (children.mapTags change) (next.mapTags change)

/-- Numbers the nodes in document order, and tells the next number. -/
def number (next : Nat) : Forest α → Forest Nat × Nat
  | nil => (nil, next)
  | leaf _ kind content rest =>
    let (rest, last) := rest.number (next + 1)
    (leaf next kind content rest, last)
  | element _ tag children rest =>
    let (children, middle) := children.number (next + 1)
    let (rest, last) := rest.number middle
    (element next tag children rest, last)

/-- Lets no line break follow the outermost document types. -/
def leading : Forest α → Forest α
  | nil => nil
  | leaf m kind content next =>
    leaf m (if kind = .docType then .leadingDocType else kind) content next.leading
  | element m tag children next => element m tag children next.leading

-- ---------------------------------------------------------------------------
-- Marks and sequences

@[simp] theorem marks_append (f g : Forest α) : (f ++ g).marks = f.marks ++ g.marks := by
  induction f with
  | nil => rfl
  | leaf _ _ _ _ ih => simp [marks, ih]
  | element _ _ _ _ _ ih => simp [marks, ih]

@[simp] theorem elements_append (f g : Forest α) :
    (f ++ g).elements = f.elements ++ g.elements := by
  induction f with
  | nil => rfl
  | leaf _ _ _ _ ih => simp [elements, ih]
  | element _ _ _ _ _ ih => simp [elements, ih]

@[simp] theorem descendants_append (f g : Forest α) :
    (f ++ g).descendants = f.descendants ++ g.descendants := by
  induction f with
  | nil => rfl
  | leaf _ _ _ _ ih => simp [descendants, ih]
  | element _ _ _ _ _ ih => simp [descendants, ih]

@[simp] theorem marks_mapTags (change : Tag → Tag) (f : Forest α) :
    (f.mapTags change).marks = f.marks := by
  induction f with
  | nil => rfl
  | leaf _ _ _ _ ih => simp [mapTags, marks, ih]
  | element _ _ _ _ ihc ih => simp [mapTags, marks, ihc, ih]

@[simp] theorem marks_mapTop (change : Tag → Tag) (f : Forest α) :
    (f.mapTop change).marks = f.marks := by
  induction f with
  | nil => rfl
  | leaf _ _ _ _ ih => simp [mapTop, marks, ih]
  | element _ _ _ _ _ ih => simp [mapTop, marks, ih]

theorem replace_of_not_mem {wanted : α → Bool} {f : Forest α} (new : Forest α)
    (h : ∀ m ∈ f.marks, wanted m = false) : f.replace wanted new = f := by
  induction f with
  | nil => rfl
  | leaf _ _ _ _ ih =>
    simp only [marks, List.mem_cons, forall_eq_or_imp] at h
    simp [replace, h.1, ih h.2]
  | element _ _ _ _ ihc ih =>
    simp only [marks, List.mem_cons, List.mem_append, forall_eq_or_imp] at h
    simp [replace, h.1, ihc fun m hm => h.2 m (.inl hm), ih fun m hm => h.2 m (.inr hm)]

theorem wanted_of_placeAfter? {wanted : α → Node α → Bool} {f : Forest α}
    {before : List (Element α)} {place : Place α}
    (h : f.placeAfter? wanted before = some place) : wanted place.mark place.node = true := by
  induction f generalizing before with
  | nil => cases h
  | leaf _ _ _ _ ih =>
    simp only [placeAfter?] at h
    split at h
    · rename_i hw; cases h; exact hw
    · exact ih h
  | element _ _ _ _ ihc ih =>
    simp only [placeAfter?] at h
    split at h
    · rename_i hw; cases h; exact hw
    · split at h
      · rename_i hc; cases h; exact ihc hc
      · exact ih h

theorem wanted_of_place? {wanted : α → Node α → Bool} {f : Forest α} {place : Place α}
    (h : f.place? wanted = some place) : wanted place.mark place.node = true :=
  wanted_of_placeAfter? h

theorem marks_number (f : Forest α) (next : Nat) :
    (f.number next).1.marks = List.range' next f.marks.length ∧
      (f.number next).2 = next + f.marks.length := by
  induction f generalizing next with
  | nil => simp [number, marks]
  | leaf _ _ _ _ ih =>
    obtain ⟨hm, hn⟩ := ih (next + 1)
    simp only [number, marks, hm, hn, List.length_cons, List.range'_succ, true_and]
    omega
  | element _ _ children rest ihc ih =>
    obtain ⟨hc, hn⟩ := ihc (next + 1)
    obtain ⟨hm, hl⟩ := ih (next + 1 + children.marks.length)
    simp only [number, marks, hc, hn, hm, hl, List.length_cons, List.length_append,
      List.range'_succ, List.range'_append_1, true_and]
    omega

end Forest

end Mailgrid.Markup
