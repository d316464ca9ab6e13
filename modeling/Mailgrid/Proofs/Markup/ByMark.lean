import Mailgrid.Proofs.Markup.Elements
import Mailgrid.Proofs.Markup.Outline

/-!
# Changes by mark

A change of tags that looks at the marks of the elements leaves everything else
of a forest as it is. Where no two nodes have the same mark, a change of the tags
inside of one element is such a change of the whole forest.
-/

namespace Mailgrid.Markup.Forest

/-- Changes the tag of each element, by its mark. -/
def mapMarked (change : α → Tag → Tag) : Forest α → Forest α
  | nil => nil
  | leaf m kind content next => leaf m kind content (next.mapMarked change)
  | element m tag children next =>
    element m (change m tag) (children.mapMarked change) (next.mapMarked change)

variable {change other : α → Tag → Tag} {f : Forest α} {e x : Element α}

@[simp] theorem marks_mapMarked (change : α → Tag → Tag) (f : Forest α) :
    (f.mapMarked change).marks = f.marks := by
  induction f with
  | nil => rfl
  | leaf _ _ _ _ ih => simp [mapMarked, marks, ih]
  | element _ _ _ _ ihc ih => simp [mapMarked, marks, ihc, ih]

theorem mapTags_eq_mapMarked (change : Tag → Tag) (f : Forest α) :
    f.mapTags change = f.mapMarked fun _ => change := by
  induction f with
  | nil => rfl
  | leaf _ _ _ _ ih => rw [mapTags, mapMarked, ih]
  | element _ _ _ _ ihc ih => rw [mapTags, mapMarked, ihc, ih]

theorem mapMarked_congr (h : ∀ e ∈ f.descendants, change e.mark e.tag = other e.mark e.tag) :
    f.mapMarked change = f.mapMarked other := by
  induction f with
  | nil => rfl
  | leaf m kind content next ih => rw [mapMarked, mapMarked, ih h]
  | element m tag children next ihc ih =>
    simp only [descendants, List.forall_mem_cons, List.forall_mem_append] at h
    obtain ⟨htag, hchildren, hnext⟩ := h
    rw [mapMarked, mapMarked, htag, ihc hchildren, ih hnext]

theorem mapMarked_of_forall (h : ∀ e ∈ f.descendants, change e.mark e.tag = e.tag) :
    f.mapMarked change = f := by
  induction f with
  | nil => rfl
  | leaf m kind content next ih => rw [mapMarked, ih h]
  | element m tag children next ihc ih =>
    simp only [descendants, List.forall_mem_cons, List.forall_mem_append] at h
    obtain ⟨htag, hchildren, hnext⟩ := h
    rw [mapMarked, htag, ihc hchildren, ih hnext]

theorem mem_descendants_mapMarked (change : α → Tag → Tag) (h : e ∈ f.descendants) :
    ⟨e.mark, change e.mark e.tag, e.children.mapMarked change⟩ ∈
      (f.mapMarked change).descendants := by
  induction f with
  | nil => cases h
  | leaf m kind content next ih => exact ih h
  | element m tag children next ihc ih =>
    simp only [mapMarked, descendants, List.mem_cons, List.mem_append] at h ⊢
    rcases h with rfl | h | h
    · exact .inl rfl
    · exact .inr (.inl (ihc h))
    · exact .inr (.inr (ih h))

-- ---------------------------------------------------------------------------
-- Changes in one element

theorem adapt_of_forall {wanted : α → Bool} {within : Tag → Forest α → Tag × Forest α}
    (h : ∀ e ∈ f.descendants, wanted e.mark = true → within e.tag e.children = (e.tag, e.children)) :
    f.adapt wanted within = f := by
  induction f with
  | nil => rfl
  | leaf m kind content next ih => rw [adapt, ih h]
  | element m tag children next ihc ih =>
    simp only [descendants, List.forall_mem_cons, List.forall_mem_append] at h
    obtain ⟨htag, hchildren, hnext⟩ := h
    rw [adapt]
    split
    · rename_i hw
      rw [htag hw]
    · rw [ihc hchildren, ih hnext]

/-- The tags inside of one element are changed, and no others. -/
theorem adapt_eq_mapMarked [DecidableEq α] (change : α → Tag → Tag) (hf : f.marks.Nodup)
    (he : e ∈ f.descendants)
    (houter : ∀ x ∈ f.descendants, x.mark ∉ e.children.marks → change x.mark x.tag = x.tag) :
    f.adapt (· == e.mark) (fun tag _ => (tag, e.children.mapMarked change)) =
      f.mapMarked change := by
  induction f with
  | nil => cases he
  | leaf m kind content next ih =>
    rw [marks, List.nodup_cons] at hf
    rw [adapt, mapMarked, ih hf.2 he houter]
  | element m tag children next ihc ih =>
    simp only [marks, List.nodup_cons, List.nodup_append, List.mem_append, not_or] at hf
    obtain ⟨⟨hmc, hmn⟩, hchildren, hnext, hdisjoint⟩ := hf
    simp only [descendants, List.forall_mem_cons, List.forall_mem_append] at houter
    obtain ⟨htag, hinner, hbehind⟩ := houter
    -- a forest whose marks are not those inside of the element is left alone
    have hkept {g : Forest α} (hm : ∀ m ∈ g.marks, m ∉ e.children.marks)
        (hg : ∀ x ∈ g.descendants, x.mark ∉ e.children.marks → change x.mark x.tag = x.tag) :
        g.mapMarked change = g :=
      mapMarked_of_forall fun x hx => hg x hx (hm _ (mark_mem_marks hx))
    rw [descendants, List.mem_cons, List.mem_append] at he
    rw [adapt, mapMarked]
    rcases he with rfl | he | he
    · have hnext' : next.mapMarked change = next :=
        hkept (fun x hx hxc => hdisjoint x hxc x hx rfl) hbehind
      simp [htag hmc, hnext']
    · have hsubset : e.children.marks ⊆ children.marks := fun _ => mem_marks_of_mem he
      have hmark := mark_mem_marks he
      have hne : m ≠ e.mark := fun h => hmc (h ▸ hmark)
      have hother : next.adapt (· == e.mark) (fun tag _ => (tag, e.children.mapMarked change)) =
          next := adapt_of_not_mem _ fun x hx => by simpa using (hdisjoint _ hmark x hx).symm
      have hnext' : next.mapMarked change = next :=
        hkept (fun x hx hxc => hdisjoint x (hsubset hxc) x hx rfl) hbehind
      simp [hne, htag fun h => hmc (hsubset h), ihc hchildren he hinner, hother, hnext']
    · have hsubset : e.children.marks ⊆ next.marks := fun _ => mem_marks_of_mem he
      have hmark := mark_mem_marks he
      have hne : m ≠ e.mark := fun h => hmn (h ▸ hmark)
      have hother : children.adapt (· == e.mark)
          (fun tag _ => (tag, e.children.mapMarked change)) = children :=
        adapt_of_not_mem _ fun x hx => by simpa using hdisjoint x hx _ hmark
      have hchildren' : children.mapMarked change = children :=
        hkept (fun x hx hxc => hdisjoint x hx x (hsubset hxc) rfl) hinner
      simp [hne, htag fun h => hmn (hsubset h), ih hnext he hbehind, hother, hchildren']

end Mailgrid.Markup.Forest
