import Mailgrid.Document.Format
import Mailgrid.Markup.Spelling

/-!
# Documents

The document that an engine works on: a forest whose nodes carry marks, no two
of them the same and none ever used again, so that a node can be told from any
other for as long as the document is worked on. What is read into a document
gets marks from `next` on.
-/

namespace Mailgrid

open Markup (Forest Spelling Tag)

structure Document where
  format : Format
  spelling : Spelling
  content : Forest Nat
  /-- No node has had this mark or a greater one. -/
  next : Nat

namespace Document

def empty (format : Format) : Document :=
  ⟨format, .empty, .nil, 0⟩

/-- Takes over the spellings of the names in a text. -/
def noteSpelling (d : Document) (text : String) : Document :=
  { d with spelling := Spelling.ofText text }

/-- Reads a text in the place of the content. -/
def read (d : Document) (text : String) : Except Failure Document := do
  let (content, next) := (← d.format.read text).leading.number d.next
  pure { d with content, next }

/-- Reads a text and takes over its spellings. -/
def load (format : Format) (text : String) : Except Failure Document :=
  ((empty format).noteSpelling text).read text

/-- Gives all names their spellings back. -/
def respell (d : Document) : Document :=
  { d with content := d.content.mapTags d.spelling.restore }

/-- The content as it stands in a document, ampersands in place. -/
def text (d : Document) : Except Failure String := do
  pure (d.format.restore (← d.format.write none d.content))

/-- The content as it stands in a template, the placeholder for each ampersand. -/
def inner (d : Document) : Except Failure String :=
  d.format.write none d.content

/-- Puts what a text reads as in the place of one node, and tells its outermost nodes. -/
def replace (d : Document) (mark : Nat) (markup : String) :
    Except Failure (Document × List Nat) := do
  let (new, next) := (← d.format.read markup).number d.next
  pure ({ d with content := d.content.replace (· == mark) new, next }, new.topMarks)

/-- Changes the tag and the content of one element. -/
def adapt (d : Document) (mark : Nat) (change : Tag → Forest Nat → Tag × Forest Nat) : Document :=
  { d with content := d.content.adapt (· == mark) change }

end Document

end Mailgrid
