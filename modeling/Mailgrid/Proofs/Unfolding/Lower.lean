import Mailgrid.Proofs.Unfolding.Parsed

/-!
# Names in lower case along a run

The reader gives all names in lower case, and expansions read what they bring in.
So at no step of a run has a document any other names.
-/

namespace Mailgrid

open Markup (AttributeValue Forest Grammar OpenTag Spelling Tag Token)
open Text (lowerString lowerString_lowerString)

-- ---------------------------------------------------------------------------
-- Tags

/-- All names in a tag are in lower case, and no two attributes have one name. -/
structure Markup.Tag.IsLower (t : Tag) : Prop where
  name : lowerString t.name = t.name
  attributes : ∀ a ∈ t.attributes, lowerString a.1 = a.1
  nodup : (t.attributes.map (·.1)).Nodup

namespace Markup.Tag

variable {t : Tag}

theorem IsLower.set (h : t.IsLower) {name : String} (hname : lowerString name = name)
    (value : AttributeValue) : (t.set name value).IsLower := by
  refine ⟨h.name, fun a ha => ?_, Table.nodup_assign name value h.nodup⟩
  rcases Table.mem_of_mem_assign ha with rfl | ha
  · exact hname
  · exact h.attributes a ha

theorem IsLower.addClass (h : t.IsLower) (name : String) : (t.addClass name).IsLower := by
  unfold Tag.addClass
  split
  · exact h
  · exact h.set (by decide) _

theorem IsLower.markCharset (h : t.IsLower) {tag : Tag} (marked : Markup.markCharset t = .ok tag) :
    tag.IsLower := by
  have hcharset : lowerString "charset" = "charset" := by decide
  have hcontent : lowerString "content" = "content" := by decide
  unfold Markup.markCharset at marked
  repeat' split at marked
  all_goals cases marked
  all_goals first
    | exact h
    | exact h.set hcharset _
    | exact h.set hcontent _

end Markup.Tag

theorem Expansion.isLower_centered {t : Tag} (h : t.IsLower) : (centered t).IsLower :=
  (h.set (by decide) _).addClass _

theorem Expansion.isLower_centeredItem {t : Tag} (h : t.IsLower) : (centeredItem t).IsLower := by
  unfold centeredItem
  split
  · exact h.addClass _
  · exact h

-- ---------------------------------------------------------------------------
-- Documents

theorem Markup.OpenTag.lower_of_read {s after : List Char} {tag : OpenTag}
    (h : OpenTag.read s = .complete tag after) :
    lowerString tag.name = tag.name ∧ ∀ a ∈ tag.attributes, lowerString a.1 = a.1 := by
  have hread := OpenTag.of_read s
  rw [h] at hread
  obtain ⟨-, name, found, -, -, hname, hattributes⟩ := hread
  have hlower (s : List Char) :
      lowerString (String.ofList (Text.lower s)) = String.ofList (Text.lower s) := by
    rw [lowerString, String.toList_ofList, Text.lower_lower]
  rw [hname, hattributes, List.forall_mem_map]
  exact ⟨hlower name, fun a _ => hlower a.name⟩

theorem Markup.isLower_of_tag_read {name : String} {attributes : List (String × AttributeValue)}
    {tag : Tag} (h : ∀ void, Tag.IsLower ⟨name, attributes, void⟩)
    (read : Tag.read Grammar.standard name attributes = .ok tag) : tag.IsLower := by
  have hmakes : Grammar.standard.makesNodes = true := rfl
  have hsplit : splitLists Grammar.standard name attributes = .ok attributes := rfl
  rw [Tag.read, hmakes, hsplit] at read
  simp only [Bool.not_true, Bool.false_eq_true, if_false, ok_bind, bind_eq_ok, pure_eq_ok] at read
  obtain ⟨marked, hmarked, -, -, rfl⟩ := read
  exact (h _).markCharset hmarked

theorem Markup.isLower_of_parse {s : List Char} {f : Forest Unit}
    (h : Forest.parse Grammar.standard s = .ok f) : f.Tags Tag.IsLower := by
  intro e he
  obtain ⟨written, hw, attributes, hcollect, hread⟩ := exists_startTag_of_parse h e he
  obtain ⟨hname, hattributes⟩ := Token.hasTag_scan OpenTag.lower_of_read false none s _ hw
  have hstandard : Grammar.standard.repeated = .lastCounts := rfl
  rw [hstandard, collect_standard] at hcollect
  cases hcollect
  obtain ⟨hnodup, hmem⟩ := Table.ofList_spec
    (written.attributes.map fun pair => (pair.1, AttributeValue.text pair.2))
  refine isLower_of_tag_read (fun _ => ⟨hname, fun a ha => ?_, hnodup⟩) hread
  obtain ⟨pair, hpair, rfl⟩ := List.mem_map.mp (hmem a ha)
  exact hattributes pair hpair

theorem Format.isLower_of_read {text : String} {f : Forest Unit} (h : standard.read text = .ok f) :
    f.Tags Tag.IsLower := by
  rw [read_standard] at h
  exact Markup.isLower_of_parse h

-- ---------------------------------------------------------------------------
-- Runs

/-- A draft with these spellings, all names of which are in lower case. -/
structure Draft.Lower (spelling : Spelling) (d : Draft) : Prop where
  format : d.document.format = Format.standard
  spelling : d.document.spelling = spelling
  tags : d.document.content.Tags Tag.IsLower

section
variable {width : Int} {spelling : Spelling} {d e : Draft} {p : Pending} {n : Nat}

theorem Draft.Lower.step (h : d.Lower spelling)
    (selected : (Unfolder.standard width).pending? d = some p)
    (expanded : (Unfolder.standard width).expand d p = .ok e) : e.Lower spelling := by
  obtain ⟨hformat, hspelling, htags⟩ := Draft.tags_of_step Format.isLower_of_read
    (fun _ => Expansion.isLower_centered) (fun _ => Expansion.isLower_centeredItem) h.format h.tags
    selected expanded
  exact ⟨hformat, hspelling.trans h.spelling, htags⟩

/-- Wherever the run of a document comes to, all names are in lower case, and the spellings that
were collected are those of the text. -/
theorem Draft.lower_of_steps {text : String} {document : Document}
    (loaded : Document.load Format.standard text = .ok document)
    (hs : (Unfolder.standard width).Steps n ⟨document, []⟩ e) :
    e.Lower (Spelling.ofText text) := by
  obtain ⟨hformat, hspelling, htags⟩ := Document.tags_of_load Format.isLower_of_read loaded
  exact hs.keeps Draft.Lower.step ⟨hformat, hspelling, htags⟩

end

end Mailgrid
