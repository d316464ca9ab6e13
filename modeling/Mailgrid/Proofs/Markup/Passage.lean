import Mailgrid.Markup.Token
import Mathlib.Data.List.Basic
import Mathlib.Data.List.Infix

/-!
# Texts as passages

A well-formed text is a sequence of passages: texts, comments, start tags with
quoted values, end tags, and the elements whose bodies are no markup. Inside its
values, comments and bodies nothing is a tag, whatever it looks like.

A start tag may be closed in more than one way: what stands behind its last
value, the end tag behind it and the blanks before that mean nothing.
-/

namespace Mailgrid.Markup

open Mailgrid.Text (isBlank trimEnd cutAt)

/-- A value in its quotes, and what stands in the tag before it. -/
structure Assignment where
  gap : List Char
  quote : Char
  value : List Char

structure Opening where
  name : List Char
  assignments : List Assignment
  /-- What stands behind the last value. -/
  last : List Char

inductive Passage where
  | text (content : List Char)
  | comment (content : List Char)
  | opening (tag : Opening)
  | closing (name blanks : List Char)
  /-- An element with all that stands in it. The name is that of its end tag. -/
  | literal (tag : Opening) (body name blanks : List Char)

-- ---------------------------------------------------------------------------
-- How passages are written

def Assignment.write (a : Assignment) : List Char :=
  a.gap ++ a.quote :: a.value ++ [a.quote]

/-- A start tag up to its last value. -/
def Opening.head (t : Opening) : List Char :=
  '<' :: t.name ++ t.assignments.flatMap Assignment.write

def Opening.write (t : Opening) : List Char :=
  t.head ++ t.last ++ ['>']

namespace Passage

def endTag (name blanks : List Char) : List Char :=
  '<' :: '/' :: name ++ blanks ++ ['>']

def write : Passage → List Char
  | text content => content
  | comment content => "<!--".toList ++ content ++ "-->".toList
  | opening t => t.write
  | closing name blanks => endTag name blanks
  | literal t body name blanks => t.write ++ body ++ endTag name blanks

/-- The values, comments and bodies. -/
def interiors : Passage → List (List Char)
  | text _ => []
  | comment content => [content]
  | opening t => t.assignments.map (·.value)
  | closing _ _ => []
  | literal t body _ _ => t.assignments.map (·.value) ++ [body]

/-- What of a passage has a meaning. -/
def kept : Passage → List Passage
  | text content => if content.all isBlank then [] else [text content]
  | comment content => [comment content]
  | opening t => [opening { t with last := [] }]
  | closing _ _ => []
  | literal t body name blanks => [literal t body name blanks]

/-- The part of a passage that its interiors stand in. -/
def core : Passage → List Char
  | text _ => []
  | comment content => write (comment content)
  | opening t => t.head
  | closing _ _ => []
  | literal t body name blanks => write (literal t body name blanks)

end Passage

-- ---------------------------------------------------------------------------
-- Well-formed passages

/-- A character that may stand in a tag outside of its values. -/
def isOuter (c : Char) : Bool :=
  c != '<' && c != '>' && !OpenTag.isQuote c

/-- A blank, or the slash of a tag that is closed at once. -/
def isLoose (c : Char) : Bool :=
  isBlank c || c == '/'

def isGap (s : List Char) : Bool :=
  s.all isOuter && s.head?.all isLoose

def isTagName : List Char → Bool
  | [] => false
  | c :: rest => c.isAlpha && rest.all fun d => isOuter d && !isLoose d

structure Assignment.WellFormed (a : Assignment) : Prop where
  gap : isGap a.gap = true
  assigned : (trimEnd a.gap).getLast? = some '='
  quote : OpenTag.isQuote a.quote = true
  value : a.quote ∉ a.value

structure Opening.WellFormed (t : Opening) : Prop where
  name : isTagName t.name = true
  assignments : ∀ a ∈ t.assignments, a.WellFormed
  last : isGap t.last = true

namespace Passage

/-- A comment and a body reach to the first end that there is for them. -/
def WellFormed : Passage → Prop
  | text content => '<' ∉ content
  | comment content =>
    cutAt Token.commentEnd? (content ++ "-->".toList) = some (content, [])
  | opening t => t.WellFormed
  | closing name blanks => isTagName name = true ∧ ∀ c ∈ blanks, isBlank c = true
  | literal t body name blanks =>
    t.WellFormed ∧ t.last.getLast? ≠ some '/' ∧
      Token.isLiteralElement (t.name.map Char.toLower) = true ∧
      isTagName name = true ∧ (∀ c ∈ blanks, isBlank c = true) ∧
      cutAt (Token.literalEnd? (t.name.map Char.toLower)) (body ++ endTag name blanks) =
        some (body, name, [])

/-- Every start tag has its end tag, except for those that are closed at once and those of void
elements. -/
def areBalanced (void : List String) : List (List Char) → List Passage → Bool
  | opened, [] => opened.isEmpty
  | opened, opening t :: m =>
    let name := t.name.map Char.toLower
    if t.last.getLast? == some '/' || void.contains (String.ofList name) then
      areBalanced void opened m
    else areBalanced void (name :: opened) m
  | name :: opened, closing closed _ :: m =>
    name == closed.map Char.toLower && areBalanced void opened m
  | [], closing _ _ :: _ => false
  | opened, _ :: m => areBalanced void opened m

-- ---------------------------------------------------------------------------
-- What is kept

theorem interiors_kept (p : Passage) : p.kept.flatMap interiors = p.interiors := by
  cases p with
  | text content =>
    simp only [kept]
    split
    · rfl
    · rfl
  | opening t => simp [kept, interiors]
  | _ => simp [kept, interiors]

theorem interiors_of_kept {m more : List Passage} (h : more.flatMap kept = m.flatMap kept) :
    more.flatMap interiors = m.flatMap interiors := by
  have hall (m : List Passage) : m.flatMap interiors = (m.flatMap kept).flatMap interiors := by
    simp only [List.flatMap_assoc, interiors_kept]
  rw [hall more, h, ← hall m]

theorem forall_core_kept (p : Passage) {P : List Char → Prop} (hnil : P []) :
    (∀ q ∈ p.kept, P q.core) ↔ P p.core := by
  cases p with
  | text content =>
    simp only [kept]
    split
    · simp [core, hnil]
    · simp
  | opening t => simp [kept, core, Opening.head]
  | closing => simp [kept, core, hnil]
  | _ => simp [kept]

theorem forall_core_of_kept {m more : List Passage} (h : more.flatMap kept = m.flatMap kept)
    {P : List Char → Prop} (hnil : P []) (hm : ∀ p ∈ m, P p.core) : ∀ p ∈ more, P p.core := by
  have hall (m : List Passage) : (∀ p ∈ m, P p.core) ↔ ∀ q ∈ m.flatMap kept, P q.core := by
    simp only [List.mem_flatMap, forall_exists_index, and_imp]
    constructor
    · intro hm q p hp hq
      exact (forall_core_kept p hnil).mpr (hm p hp) q hq
    · intro hk p hp
      exact (forall_core_kept p hnil).mp fun q hq => hk q p hp hq
  exact (hall more).mpr (h ▸ (hall m).mp hm)

-- ---------------------------------------------------------------------------
-- Where the interiors stand

theorem infix_of_mem {α : Type} (write : α → List Char) {a : α} {l : List α} (h : a ∈ l) :
    write a <:+: l.flatMap write := by
  rw [List.flatMap_def]
  exact List.infix_of_mem_flatten (List.mem_map_of_mem h)

theorem value_within {t : Opening} {s : List Char}
    (h : s ∈ t.assignments.map (·.value)) : s <:+: t.write := by
  obtain ⟨a, ha, rfl⟩ := List.mem_map.mp h
  have hvalue : a.value <:+: a.write :=
    ⟨a.gap ++ [a.quote], [a.quote], by simp [Assignment.write]⟩
  have hwritten : t.assignments.flatMap Assignment.write <:+: t.write :=
    ⟨'<' :: t.name, t.last ++ ['>'], by simp [Opening.write, Opening.head]⟩
  exact (hvalue.trans (infix_of_mem Assignment.write ha)).trans hwritten

theorem interior_within {p : Passage} {s : List Char} (h : s ∈ p.interiors) : s <:+: p.write := by
  cases p with
  | text content => cases h
  | comment content =>
    obtain rfl := List.mem_singleton.mp h
    exact List.infix_append _ s _
  | opening t => exact value_within h
  | closing name blanks => cases h
  | literal t body name blanks =>
    rcases List.mem_append.mp h with h | h
    · exact (value_within h).trans ⟨[], body ++ endTag name blanks, by simp [write]⟩
    · obtain rfl := List.mem_singleton.mp h
      exact List.infix_append _ s _

end Passage

end Mailgrid.Markup
