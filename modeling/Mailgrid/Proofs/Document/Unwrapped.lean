import Mailgrid.Proofs.Document.Marks
import Mailgrid.Proofs.Markup.Outline
import Mailgrid.Proofs.Markup.Verbatim

/-!
# Unwrapped elements

`replace_inner`: an element that is replaced by its own inner markup makes way
for its children. They are read as they were, and the nodes around the element
stay what and where they are.
-/

namespace Mailgrid.Document

open Markup (Element Forest Tag)

variable {d : Document} {e : Element Nat}

theorem replace_of_read {markup : String} {new : Forest Unit} (h : d.format.read markup = .ok new)
    (mark : Nat) : d.replace mark markup =
      .ok ({ d with
        content := d.content.replace (· == mark) (new.number d.next).1
        next := (new.number d.next).2 }, (new.number d.next).1.topMarks) := by
  rw [replace, h]
  rfl

/-- The inner markup of an element is read as its children; in the place of the element these come
to stand, with new marks, and nothing else changes. -/
theorem replace_inner (hformat : d.format = Format.standard) (hd : d.Marked)
    (hcontent : d.content.Verbatim) (he : e ∈ d.content.descendants) :
    ∃ inner new, d.format.write (some e.tag.name) e.children = .ok inner ∧
      d.format.read inner = .ok new ∧ new.bare = e.children.bare ∧
      ∃ content before level after,
        d.replace e.mark inner = .ok ({ d with content, next := (new.number d.next).2 },
          (new.number d.next).1.topMarks) ∧
        d.content.outline 0 = before ++ ⟨level, e.mark, .element e.tag⟩ ::
          (e.children.outline (level + 1) ++ after) ∧
        content.outline 0 = before ++ ((new.number d.next).1.outline level ++ after) := by
  obtain ⟨new, hread, hbare⟩ :=
    Format.read_verbatim (hcontent.of_mem_descendants he) (some e.tag.name)
  rw [← hformat] at hread
  obtain ⟨before, level, after, hbetween⟩ := Forest.exists_between_of_mem he 0
  have hmarks : ∀ x ∈ before ++ after, (x.mark == e.mark) = false := fun x hx =>
    beq_false_of_ne (hbetween.mark_ne hd.nodup x hx)
  refine ⟨_, new, ?_, hread, hbare, _, before, level, after, replace_of_read hread e.mark,
    hbetween.outline, hbetween.replace (· == e.mark) (beq_self_eq_true e.mark) hmarks _⟩
  rw [hformat]
  exact Format.write_standard (some e.tag.name) e.children

/-- A picture whose values have quotes of one kind each. -/
def quotedPicture : Tag :=
  ⟨"img", [("alt", .text "a \"b\""), ("title", .text "it's")], true⟩

/-- What stands in the row of the document. -/
def rowContent : Forest Nat :=
  .leaf 2 (.text .plain) "Hi" (.element 3 ⟨"columns", [("small", .text "6")], false⟩
    (.element 4 quotedPicture .nil .nil) (.leaf 5 (.text .plain) "\n" .nil))

/-- A row in a container, with a text behind it. -/
def rowDocument : Document where
  format := Format.standard
  spelling := .empty
  content := .element 0 ⟨"container", [], false⟩
    (.element 1 ⟨"row", [("class", .text "wide")], false⟩ rowContent
      (.leaf 6 (.text .plain) "Bye" .nil)) .nil
  next := 7

theorem replace_inner_row : rowDocument.Marked ∧ rowDocument.content.Verbatim ∧
    ∃ inner new, inner = "Hi<columns small=\"6\"><img alt='a \"b\"' title=\"it's\"/></columns>\n" ∧
      Format.standard.write (some "row") rowContent = .ok inner ∧
      Format.standard.read inner = .ok new ∧ new.bare = rowContent.bare ∧
      ∃ content before level after,
        rowDocument.replace 1 inner = .ok ({ rowDocument with content, next := (new.number 7).2 },
          (new.number 7).1.topMarks) ∧
        rowDocument.content.outline 0 =
          before ++ ⟨level, 1, .element ⟨"row", [("class", .text "wide")], false⟩⟩ ::
            (rowContent.outline (level + 1) ++ after) ∧
        content.outline 0 = before ++ ((new.number 7).1.outline level ++ after) := by
  have hmarked : rowDocument.Marked := ⟨by decide, by decide⟩
  have hverbatim : rowDocument.content.Verbatim := by decide
  have hrow : (⟨1, ⟨"row", [("class", .text "wide")], false⟩, rowContent⟩ : Element Nat) ∈
      rowDocument.content.descendants := .tail _ (.head _)
  obtain ⟨inner, new, hwrite, h⟩ := replace_inner rfl hmarked hverbatim hrow
  refine ⟨hmarked, hverbatim, inner, new, ?_, hwrite, h⟩
  refine (Except.ok.inj ((Format.write_standard _ _).symm.trans hwrite)).symm.trans ?_
  decide +kernel

end Mailgrid.Document
