import Mailgrid.Proofs.Markup.Growth

/-!
# Void elements have no content

While a forest grows no void element is ever among the open ones: it is closed
by the tag that opens it. So nothing that follows can come inside.
-/

namespace Mailgrid.Markup

/-- No element with one of these names has content. -/
def Forest.Hollow (names : NameSet) (f : Forest α) : Prop :=
  f.Holds fun tag children => names.contains tag.name = true → children = .nil

theorem Forest.Hollow.number {names : NameSet} {f : Forest α} (h : f.Hollow names) (next : Nat) :
    (f.number next).1.Hollow names := by
  induction f generalizing next with
  | nil => exact holds_nil
  | leaf m kind content rest ih => exact ih h (next + 1)
  | element m tag children rest ihc ih =>
    obtain ⟨htag, hchildren, hrest⟩ := holds_element.mp h
    refine holds_element.mpr ⟨?_, ihc hchildren _, ih hrest _⟩
    intro hname
    rw [htag hname]
    rfl

theorem Forest.Hollow.leading {names : NameSet} {f : Forest α} (h : f.Hollow names) :
    f.leading.Hollow names :=
  Holds.leading h

/-- Whatever a text holds and however a grammar is made, what is void for it has no content. -/
theorem hollow_of_parse {grammar : Grammar} {s : List Char} {f : Forest Unit}
    (h : Forest.parse grammar s = .ok f) : f.Hollow grammar.void := by
  -- only what is not void stays open
  let isOpen (tag : Tag) : Prop := grammar.void.contains tag.name = false
  refine holds_of_parse (O := isOpen) ?_ ?_ h
  · intro tag content htag hvoid
    rw [htag] at hvoid
    cases hvoid
  · rintro written - tag ⟨attributes, -, hread⟩
    obtain ⟨hname, hvoid⟩ := of_tag_read hread
    refine ⟨fun _ => rfl, ?_⟩
    intro hnot
    rw [← hname] at hvoid
    exact hvoid.symm.trans hnot

end Mailgrid.Markup
