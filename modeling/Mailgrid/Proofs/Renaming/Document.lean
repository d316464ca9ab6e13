import Mailgrid.Proofs.Document.Tidy
import Mailgrid.Proofs.Renaming.Run

/-!
# Reading documents with renamed components

A tidy document and the document with a component renamed are read as forests
that are the same but for the names of that component.
-/

namespace Mailgrid

open Component (CanBe)
open Markup (Forest Retagged Tag bareStyle)
open Text (lowerString)

variable {kind : Component} {name : String}

/-- A document in which a component can be renamed. -/
structure Markup.Forest.Renamable (kind : Component) (name : String) (f : Forest α) : Prop where
  tidy : f.TidyBelow
  fresh : ∀ e ∈ f.descendants, lowerString e.tag.name ≠ name
  narrow : kind = .center → ∀ e ∈ f.descendants, lowerString e.tag.name = "button" →
    Expansion.isWide e.tag.reread = false

namespace Markup.Forest

variable {f : Forest α}

theorem Renamable.tags (h : f.Renamable kind name) :
    ∀ e ∈ f.descendants, e.tag.veiled.reread.Renamable kind name := by
  intro e he
  have htidy := h.tidy.tags e he
  refine ⟨htidy.plain_veiled, h.fresh e he, fun hk hb => ?_⟩
  have hnarrow := h.narrow hk e he hb
  rw [Expansion.isWide] at hnarrow ⊢
  rwa [htidy.hasClass_veiled (by decide), htidy.hasClass_veiled (by decide)]

theorem veiled_renamed (f : Forest α) :
    (f.mapTags (Tag.renamed kind name)).veiled = f.veiled.mapTags (Tag.renamed kind name) := by
  have htag (t : Tag) : (t.renamed kind name).veiled = t.veiled.renamed kind name := by
    unfold Tag.renamed
    split
    · rename_i hk
      exact (if_pos hk).symm
    · rename_i hk
      exact (if_neg hk).symm
  induction f with
  | nil => rfl
  | leaf m _ content next ih => rw [mapTags, veiled, veiled, mapTags, ih]
  | element m tag children next ihc ih => rw [mapTags, veiled, veiled, mapTags, htag, ihc, ih]

theorem Renamable.reread (hc : CanBe kind name) (h : f.Renamable kind name) :
    Retagged (Tag.renamed kind name) (f.veiled.reread [] "")
      ((f.mapTags (Tag.renamed kind name)).veiled.reread [] "") := by
  rw [veiled_renamed]
  refine (Retagged.of_mapTags _ _).reread (fun t ht => ?_) rfl ""
  rw [tags_veiled] at ht
  obtain ⟨e, he, rfl⟩ := List.mem_map.mp ht
  have htidy := h.tidy.tags e he
  have hread := Tag.reread_renamed hc (t := e.tag.veiled)
  rw [hread]
  exact ⟨rfl, keepsBlanks_renamed hc htidy.plain_veiled⟩

end Markup.Forest

/-- Both documents are read, and components can be expanded in them side by side. -/
theorem Document.load_renamed (hc : CanBe kind name) {f : Forest α} (h : f.Renamable kind name)
    {text text' : String} (written : text.toList = bareStyle.write none f)
    (written' : text'.toList = bareStyle.write none (f.mapTags (Tag.renamed kind name))) :
    ∃ d d', load Format.standard text = .ok d ∧ load Format.standard text' = .ok d' ∧
      (⟨d, []⟩ : Draft).Renamable kind name ∧ Draft.Renamed kind name ⟨d, []⟩ ⟨d', []⟩ := by
  have hload := load_tidy h.tidy written
  have hload' := load_tidy (h.tidy.renamed hc) written'
  obtain ⟨hcontent, hnext⟩ := (h.reread hc).leading.number 0
  refine ⟨_, _, hload, hload', ⟨marked_of_load hload, rfl, h.tidy.clear_reread h.tags 0⟩, ?_⟩
  exact ⟨hcontent, rfl, hnext, Markup.Spelling.renamed_ofText hc h.tidy h.fresh written written',
    rfl⟩

end Mailgrid
