import Mailgrid.Proofs.Markup.Spelling
import Mailgrid.Proofs.Renaming.Tag

/-!
# Spellings of renamed components

A tidy document stays tidy when a component is renamed. The new name is in lower
case, so no spelling is collected of it, and every other name gets the spelling
that it gets in the document without the new name.
-/

namespace Mailgrid

open Component (CanBe)
open Markup (Forest Part Spelling Tag bareStyle of_isPlainName)
open Text (lowerString)

variable {kind : Component} {name : String}

-- ---------------------------------------------------------------------------
-- Tidy documents

namespace Markup.Tag.Tidy

variable {t : Tag}

theorem void_renamed (h : t.Tidy) : (t.renamed kind name).void = t.void := by
  unfold Tag.renamed
  split
  · rename_i hk
    rw [h.void, hk]
    cases kind <;> rfl
  · rfl

theorem renamed (hc : CanBe kind name) (h : t.Tidy) : (t.renamed kind name).Tidy := by
  unfold Tag.renamed
  split
  · obtain ⟨hlegible, hlower⟩ := of_isPlainName hc.plain
    have hread : ∀ x ∈ VoidElement.names, Grammar.standard.void.contains x = true := by decide
    refine ⟨hlegible, ?_, ?_, h.attributes⟩
    · rw [hlower]
      exact hc.unreserved
    · rw [hlower, eq_comm, Bool.eq_false_iff]
      intro hm
      have hvoid := hread name (List.contains_iff_mem.mp hm)
      rw [hc.holds] at hvoid
      cases hvoid
  · exact h

end Markup.Tag.Tidy

namespace Markup.Forest

variable {f : Forest α}

theorem Tidy.renamed (hc : CanBe kind name) (h : f.Tidy) :
    (f.mapTags (Tag.renamed kind name)).Tidy := by
  induction f with
  | nil => trivial
  | leaf m _ content next ih => exact ⟨h.1, ih h.2⟩
  | element m tag children next ihc ih =>
    obtain ⟨htag, hhollow, hchildren, hnext⟩ := h
    refine ⟨htag.renamed hc, fun hv => ?_, ihc hchildren, ih hnext⟩
    rw [isNil_mapTags]
    refine hhollow ?_
    rw [Tag.reread_renamed hc, htag.void_renamed, Bool.or_eq_true] at hv
    rw [Bool.or_eq_true]
    exact hv.imp_right Tag.void_of_renamed

theorem TidyBelow.renamed (hc : CanBe kind name) (h : f.TidyBelow) :
    (f.mapTags (Tag.renamed kind name)).TidyBelow := by
  unfold TidyBelow at h
  split at h
  · exact ⟨h.1, h.2.renamed hc⟩
  · rename_i f hno
    have hf := h.renamed hc
    unfold TidyBelow
    split
    · rename_i he
      rw [he] at hf
      exact absurd hf.1 id
    · exact hf

theorem ended_mapTags {change : Tag → Tag}
    (h : ∀ t ∈ f.descendants.map (·.tag), (change t).void = t.void) :
    (f.mapTags change).parts.filterMap Part.ended? =
      (f.parts.filterMap Part.ended?).map change := by
  induction f with
  | nil => rfl
  | leaf m _ content next ih => exact ih h
  | element m tag children next ihc ih =>
    simp only [descendants, List.map_cons, List.map_append, List.forall_mem_cons,
      List.forall_mem_append] at h
    obtain ⟨hvoid, hchildren, hnext⟩ := h
    rw [mapTags, parts, parts, hvoid, List.filterMap_cons_none rfl, List.filterMap_cons_none rfl]
    split
    · exact ih hnext
    · have hcons (t : Tag) (rest : List Part) : (Part.endTag t :: rest).filterMap Part.ended? =
        t :: rest.filterMap Part.ended? := rfl
      rw [List.filterMap_append, List.filterMap_append, hcons, hcons, ihc hchildren, ih hnext,
        List.map_append, List.map_cons]

end Markup.Forest

-- ---------------------------------------------------------------------------
-- Tables of spellings

namespace Markup.Spelling

/-- The second spellings are those of a document with a component renamed. -/
structure Renamed (kind : Component) (name : String) (s s' : Spelling) : Prop where
  own : respell s'.tags name = name
  others : ∀ key, key ≠ kind.standardTag → respell s'.tags key = respell s.tags key
  attributes : s'.attributes = s.attributes
  lower : ∀ key, lowerString key = key → lowerString (respell s.tags key) = key

theorem isSpellingOf_of_ne {key s : String} (h : lowerString s ≠ key) :
    isSpellingOf key s.toList = false := by
  rw [isSpellingOf, Bool.and_eq_false_iff]
  exact .inr (beq_false_of_ne h)

theorem isSpellingOf_of_lower {key s : String} (h : lowerString s = s) :
    isSpellingOf key s.toList = false := by
  have hlower : Text.lower s.toList = s.toList := by
    rw [← String.toList_inj] at h
    rwa [lowerString, String.toList_ofList] at h
  rw [isSpellingOf, Text.isMixedCase, hlower, bne_self_eq_false]
  rfl

theorem find?_renamed (hname : lowerString name = name) {key : String}
    (hk : key ≠ kind.standardTag) (tags : List Tag) :
    (((tags.map (Tag.renamed kind name)).map (·.name)).map String.toList).find?
        (isSpellingOf key) =
      ((tags.map (·.name)).map String.toList).find? (isSpellingOf key) := by
  induction tags with
  | nil => rfl
  | cons t tags ih =>
    simp only [List.map_cons, List.find?_cons, ih]
    by_cases hkind : lowerString t.name = kind.standardTag
    · have hrenamed : (t.renamed kind name).name = name := congrArg Tag.name (if_pos hkind)
      have hother : isSpellingOf key t.name.toList = false :=
        isSpellingOf_of_ne (hkind ▸ Ne.symm hk)
      rw [hrenamed, isSpellingOf_of_lower hname, hother]
    · have hsame : t.renamed kind name = t := if_neg hkind
      rw [hsame]

theorem find?_fresh (hname : lowerString name = name) {tags : List Tag}
    (h : ∀ t ∈ tags, lowerString t.name ≠ name) :
    (((tags.map (Tag.renamed kind name)).map (·.name)).map String.toList).find?
      (isSpellingOf name) = none := by
  induction tags with
  | nil => rfl
  | cons t tags ih =>
    obtain ⟨ht, htags⟩ := List.forall_mem_cons.mp h
    simp only [List.map_cons, List.find?_cons, ih htags]
    by_cases hkind : lowerString t.name = kind.standardTag
    · have hrenamed : (t.renamed kind name).name = name := congrArg Tag.name (if_pos hkind)
      rw [hrenamed, isSpellingOf_of_lower hname]
    · have hsame : t.renamed kind name = t := if_neg hkind
      rw [hsame, isSpellingOf_of_ne ht]

theorem renamed_ofText (hc : CanBe kind name) {f : Forest α} (h : f.TidyBelow)
    (fresh : ∀ e ∈ f.descendants, lowerString e.tag.name ≠ name) {text text' : String}
    (written : text.toList = bareStyle.write none f)
    (written' : text'.toList = bareStyle.write none (f.mapTags (Tag.renamed kind name))) :
    Renamed kind name (ofText text) (ofText text') := by
  have h' := h.renamed hc
  have hname := (of_isPlainName hc.plain).2
  have hvoid : ∀ t ∈ f.descendants.map (·.tag), (t.renamed kind name).void = t.void := by
    intro t ht
    obtain ⟨e, he, rfl⟩ := List.mem_map.mp ht
    exact (h.tags e he).void_renamed
  have hfresh : ∀ t ∈ f.descendants.map (·.tag) ++ f.parts.filterMap Part.ended?,
      lowerString t.name ≠ name := by
    have hall : ∀ t ∈ f.descendants.map (·.tag), lowerString t.name ≠ name := by
      intro t ht
      obtain ⟨e, he, rfl⟩ := List.mem_map.mp ht
      exact fresh e he
    exact List.forall_mem_append.mpr ⟨hall, fun t ht => hall t (f.ended_parts t ht)⟩
  have hattributes (tags : List Tag) :
      ((tags.map (Tag.renamed kind name)).flatMap fun t => t.attributes.map (·.1)) =
        tags.flatMap fun t => t.attributes.map (·.1) := by
    rw [List.flatMap_map]
    exact List.flatMap_congr fun t _ => by rw [Tag.attributes_renamed]
  have htags : (f.mapTags (Tag.renamed kind name)).descendants.map (·.tag) =
      (f.descendants.map (·.tag)).map (Tag.renamed kind name) := by
    rw [Forest.tags_mapTags, List.map_map]
    rfl
  rw [ofText_parts h.parts (written.trans (h.write none)),
    ofText_parts h'.parts (written'.trans (h'.write none)), h.started_parts, h'.started_parts,
    htags, Forest.ended_mapTags hvoid, ← List.map_append]
  refine ⟨?_, fun key hk => ?_, ?_, fun key hk => lowerString_respell _ hk⟩
  · rw [respell_foldl, find?_fresh hname hfresh]
    rfl
  · rw [respell_foldl, respell_foldl, find?_renamed hname hk]
  · rw [hattributes]

/-- Renamed components get no spelling, and all else gets the spelling that it had. -/
theorem Renamed.restore {s s' : Spelling} (h : Renamed kind name s s') {t : Tag} (ht : t.Plain) :
    s'.restore (t.renamed kind name) = (s.restore t).renamed kind name := by
  have hlower := h.lower t.name (of_isPlainName ht.1).2
  have hname : (s.restore t).name = respell s.tags t.name := rfl
  obtain ⟨hk, he⟩ | ⟨hk, he⟩ := renamed_cases kind name ht
  · have hthere : (s.restore t).renamed kind name = { s.restore t with name, void := false } :=
      if_pos (by rw [hname, hlower, hk])
    rw [he, hthere, Spelling.restore, h.own, h.attributes]
    rfl
  · have hthere : (s.restore t).renamed kind name = s.restore t :=
      if_neg (by rw [hname, hlower]; exact hk)
    rw [he, hthere, Spelling.restore, h.others _ hk, h.attributes]
    rfl

end Markup.Spelling

end Mailgrid
