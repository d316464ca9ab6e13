import Mailgrid.Proofs.Document.Tidy
import Mailgrid.Proofs.Markup.Spelling

/-!
# Ordinary documents are written as they were read

Reading an ordinary document gives a forest with names in lower case and the
placeholder for each ampersand. Writing it gives the names their spellings and
puts the ampersands back, and so gives the text that was read.
-/

namespace Mailgrid

open Markup (AttributeValue Forest Growth PlainText Spelling Tag bareStyle not_mem_of_isLegible
  isNameLetter isNameLetter_ampersand)

-- ---------------------------------------------------------------------------
-- Forests with placeholders are read again

namespace Markup

theorem OrdinaryText.plainText {content : String} (h : OrdinaryText content) :
    PlainText (Format.standard.protect content) := by
  obtain ⟨hne, hlacks, hblank⟩ := h
  refine ⟨Format.protect_ne_empty hne, isPlain_protect (not_mem_of_lacks hlacks (by decide)), fun hspace => ?_⟩
  · rcases hblank (Format.all_isSpace_protect content ▸ hspace) with rfl | rfl
    · exact .inl (Format.protect_of_not_mem (by decide))
    · exact .inr (Format.protect_of_not_mem (by decide))

namespace Forest

theorem startsWithText_veiled (f : Forest α) : f.veiled.startsWithText = f.startsWithText := by
  cases f with
  | nil => rfl
  | leaf m kind => cases kind <;> rfl
  | element => rfl

theorem Ordinary.steady_veiled {f : Forest α} (h : f.Ordinary) : f.veiled.Steady := by
  induction f with
  | nil => trivial
  | leaf m kind content next ih =>
    cases kind with
    | text kind =>
      obtain ⟨htext, hapart, hnext⟩ := h
      exact ⟨OrdinaryText.plainText htext, (startsWithText_veiled next).trans hapart, ih hnext⟩
    | comment =>
      obtain ⟨⟨-, hblank⟩, hnext⟩ := h
      refine ⟨?_, ih hnext⟩
      rwa [Format.all_isSpace_protect]
    | _ => exact absurd h id
  | element m tag children next ihc ih => exact ⟨ihc h.2.2.1, ih h.2.2.2⟩

end Forest

end Markup

-- ---------------------------------------------------------------------------
-- Reading and writing

namespace Markup.Forest

theorem Ordinary.bare_reread {f : Forest α} (h : f.Ordinary) :
    (f.veiled.reread [] "").leading.bare = (f.veiled.mapTags Tag.reread).bare := by
  have hsteady := h.steady_veiled
  rw [bare_leading, hsteady.bare_reread_behind [] (.inl rfl), lead, if_pos rfl, ← bare_leading,
    leading_mapTags, hsteady.leading]

theorem settled_of_isLegible {name : String} (h : Markup.isLegible name = true) (keeps : Bool) :
    Growth.settled keeps name = name := by
  obtain ⟨c, letters, hn, -, hletters⟩ := exists_of_isLegible h
  have hspace : Growth.isSpace c = false :=
    of_ascii (P := fun c => isNameLetter c = true → Growth.isSpace c = false) (by decide)
      (ascii_of_isNameLetter (hletters c List.mem_cons_self)) (hletters c List.mem_cons_self)
  rw [Growth.settled, hn, List.all_cons, hspace, Bool.false_and, Bool.and_false]
  rfl

/-- An ordinary forest is read as it is, but for names and ampersands. -/
theorem Headed.bare_reread {f : Forest α} (h : f.Headed) :
    (f.veiled.reread [] "").leading.bare = (f.veiled.mapTags Tag.reread).bare := by
  unfold Headed at h
  split at h
  · rename_i m name next
    obtain ⟨hname, hnext⟩ := h
    have hprotect : Format.standard.protect name = name :=
      Format.protect_of_not_mem (not_mem_of_isLegible hname isNameLetter_ampersand)
    rw [veiled, reread, hprotect, settled_of_isLegible hname, textNode, if_pos rfl, leading, bare,
      hnext.bare_reread]
    · rfl
    · intro _ hkind
      cases hkind
  · exact h.bare_reread

end Markup.Forest

namespace Document

variable {f : Forest α} {text : String} {d : Document}

theorem load_ordinary (h : f.Headed) (written : text.toList = bareStyle.write none f) :
    ∃ d, load Format.standard text = .ok d ∧ d.format = Format.standard ∧
      d.spelling = Spelling.ofText text ∧
      d.content.bare = (f.veiled.mapTags Tag.reread).bare :=
  ⟨_, load_tidy h.tidy written, rfl, rfl, (Forest.bare_number _ _).trans h.bare_reread⟩

theorem text_respell (h : f.Headed) (once : f.SpelledOnce)
    (written : text.toList = bareStyle.write none f) (format : d.format = Format.standard)
    (spelling : d.spelling = Spelling.ofText text)
    (content : d.content.bare = (f.veiled.mapTags Tag.reread).bare) :
    d.respell.text = .ok text := by
  have hrestore : ∀ t ∈ f.veiled.descendants.map (·.tag),
      d.spelling.restore t.reread = t := by
    intro t ht
    rw [Forest.tags_veiled] at ht
    obtain ⟨e, he, rfl⟩ := List.mem_map.mp ht
    obtain ⟨hname, hattributes⟩ := Spelling.respell_ordinary h once written he
    rw [← spelling] at hname hattributes
    have hordinary := h.tags e he
    refine Spelling.restore_reread hname (fun a ha => ?_) ?_ hordinary.reread_void
    · obtain ⟨b, hb, rfl⟩ := List.mem_map.mp ha
      exact ⟨hattributes b hb, AttributeValue.shown_veiled (hordinary.attributes b hb).2⟩
    · rw [Tag.veiled, List.map_map]
      exact hordinary.nodup
  have hback : d.respell.content.bare = f.veiled.bare := by
    rw [respell, Forest.bare_mapTags, content, ← Forest.bare_mapTags, Forest.mapTags_mapTags,
      Forest.mapTags_eq_self hrestore]
  have hclear : '\ue000' ∉ text.toList := by
    rw [written, h.tidy.write none]
    intro hm
    obtain ⟨p, hp, hm⟩ := List.mem_flatMap.mp hm
    exact (h.tidy.parts p hp).not_mem_placeholder hm
  have hwrite : bareStyle.write none d.respell.content = Format.protectedChars text.toList := by
    rw [← Forest.write_bare d.respell.content none none, hback, Forest.write_bare _ none none,
      h.tidy.write_veiled none, written]
  have hformat : d.respell.format = Format.standard := format
  rw [Document.text, hformat, Format.write_standard, ok_bind, hwrite]
  refine congrArg Except.ok ?_
  rw [← String.toList_inj, Format.toList_restore, String.toList_ofList,
    Format.restoredChars_protectedChars, Format.restoredChars_of_not_mem hclear]

end Document

end Mailgrid
