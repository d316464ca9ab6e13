import Mailgrid.Proofs.Markup.Clear

/-!
# Verbatim forests

The quotes around a value are of the kind that does not stand in it, so a forest
whose values have no quotes of both kinds is read as it was written: the same
elements, attributes, texts and comments, in the same order.
-/

namespace Mailgrid

open Markup (Element Forest bareStyle)

namespace Markup.Forest

/-- Elements with verbatim tags, void ones without content, plain texts, no two in a row, and
comments that are not blank. -/
structure Verbatim (f : Forest α) : Prop where
  clear : f.Clear Tag.Verbatim
  steady : f.Steady

instance (f : Forest α) : Decidable f.Verbatim :=
  decidable_of_iff (f.Clear Tag.Verbatim ∧ f.Steady) ⟨fun h => ⟨h.1, h.2⟩, fun h => ⟨h.1, h.2⟩⟩

variable {f : Forest α} {e : Element α}

theorem Steady.of_mem_descendants (h : f.Steady) (he : e ∈ f.descendants) : e.children.Steady := by
  induction f with
  | nil => cases he
  | leaf m kind content next ih =>
    cases kind with
    | text => exact ih h.2.2 he
    | comment => exact ih h.2 he
    | _ => exact absurd h id
  | element m tag children next ihc ih =>
    simp only [descendants, List.mem_cons, List.mem_append] at he
    rcases he with rfl | he | he
    · exact h.1
    · exact ihc h.1 he
    · exact ih h.2 he

theorem Verbatim.of_mem_descendants (h : f.Verbatim) (he : e ∈ f.descendants) :
    e.children.Verbatim :=
  ⟨(h.clear.of_mem_descendants he).2, h.steady.of_mem_descendants he⟩

theorem Clear.isVerbatim {P : Tag → Prop} (hP : ∀ t, P t → t.Verbatim) (h : f.Clear P) :
    f.isVerbatim = true := by
  induction f with
  | nil => rfl
  | leaf m kind content next ih =>
    cases kind with
    | text => rw [Forest.isVerbatim, ih h.2, Bool.and_true]; exact h.1
    | comment =>
      obtain ⟨⟨hdash, -⟩, hnext⟩ := h
      rw [Forest.isVerbatim, ih hnext, Bool.and_true]
      simpa [isLegibleLeaf] using hdash
    | _ => exact absurd h id
  | element m tag children next ihc ih =>
    obtain ⟨hp, hhollow, hchildren, hnext⟩ := h
    have htag := hP tag hp
    rw [Forest.isVerbatim, htag.isVerbatim, htag.reread, Bool.or_self, ihc hchildren, ih hnext]
    cases hv : tag.void with
    | false => rfl
    | true => rw [hhollow hv, Bool.or_true]; rfl

theorem Verbatim.bare_reread (h : f.Verbatim) : (f.reread [] "").bare = f.bare := by
  rw [h.steady.bare_reread_behind [] (.inl rfl), h.clear.mapTags_reread fun _ => id, lead, if_pos rfl]

end Markup.Forest

/-- What is written of a verbatim forest is read, and as that forest. -/
theorem Format.read_verbatim {f : Forest α} (h : f.Verbatim) (parent : Option String) :
    ∃ new, standard.read (String.ofList (bareStyle.write parent f)) = .ok new ∧
      new.bare = f.bare := by
  have hampersand := h.clear.not_mem_write (fun _ => id) parent
  refine ⟨f.reread [] "", ?_, h.bare_reread⟩
  rw [read_standard, String.toList_ofList, protectedChars_of_not_mem hampersand]
  exact Markup.parse_verbatim (h.clear.isVerbatim fun _ => id) parent

end Mailgrid
