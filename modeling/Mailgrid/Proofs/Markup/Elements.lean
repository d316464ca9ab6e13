import Mailgrid.Markup.Forest
import Mathlib.Data.List.Nodup

/-!
# Elements and their marks

What is in an element of a forest is in the forest, and so are its marks. Where
marks stand once only, an element is told by its mark from all others.
-/

namespace Mailgrid.Markup.Forest

variable {α : Type} {f : Forest α} {e x : Element α} {m : α}

theorem marks_sublist_of_mem (he : e ∈ f.descendants) :
    (e.mark :: e.children.marks).Sublist f.marks := by
  induction f with
  | nil => cases he
  | leaf x kind content next ih => exact (ih he).cons x
  | element x t children next ihc ih =>
    simp only [descendants, List.mem_cons, List.mem_append] at he
    rcases he with rfl | he | he
    · exact (List.sublist_append_left _ _).cons_cons x
    · exact ((ihc he).trans (List.sublist_append_left _ _)).cons x
    · exact ((ih he).trans (List.sublist_append_right _ _)).cons x

theorem marks_descendants_sublist (f : Forest α) :
    (f.descendants.map (·.mark)).Sublist f.marks := by
  induction f with
  | nil => exact .slnil
  | leaf x kind content next ih => exact ih.cons x
  | element x t children next ihc ih =>
    rw [descendants, List.map_cons, List.map_append]
    exact (ihc.append ih).cons_cons x

theorem eq_of_mark_eq {e' : Element α} (hn : f.marks.Nodup) (he : e ∈ f.descendants)
    (he' : e' ∈ f.descendants) (h : e.mark = e'.mark) : e = e' :=
  List.inj_on_of_nodup_map (hn.sublist (marks_descendants_sublist f)) he he' h

theorem mark_mem_marks (he : e ∈ f.descendants) : e.mark ∈ f.marks :=
  (marks_sublist_of_mem he).subset List.mem_cons_self

theorem nodup_children (hn : f.marks.Nodup) (he : e ∈ f.descendants) : e.children.marks.Nodup :=
  (List.nodup_cons.mp (hn.sublist (marks_sublist_of_mem he))).2

theorem mem_marks_of_mem (he : e ∈ f.descendants) (hm : m ∈ e.children.marks) : m ∈ f.marks :=
  (marks_sublist_of_mem he).subset (List.mem_cons_of_mem _ hm)

theorem mem_descendants_of_mem_elements (he : e ∈ f.elements) : e ∈ f.descendants := by
  induction f with
  | nil => cases he
  | leaf x kind content next ih => exact ih he
  | element x t children next _ ih =>
    simp only [elements, List.mem_cons] at he
    simp only [descendants, List.mem_cons, List.mem_append]
    exact he.imp_right fun he => .inr (ih he)

theorem topMarks_subset (f : Forest α) : f.topMarks ⊆ f.marks := by
  induction f with
  | nil => exact List.Subset.refl _
  | leaf x kind content next ih => exact List.cons_subset_cons x ih
  | element x t children next _ ih =>
    exact List.cons_subset_cons x (List.subset_append_of_subset_right _ ih)

theorem mem_descendants_trans (he : e ∈ f.descendants)
    (hx : x ∈ e.children.descendants) : x ∈ f.descendants := by
  induction f with
  | nil => cases he
  | leaf y kind content next ih => exact ih he
  | element y t children next ihc ih =>
    simp only [descendants, List.mem_cons, List.mem_append] at he ⊢
    rcases he with rfl | he | he
    · exact .inr (.inl hx)
    · exact .inr (.inl (ihc he))
    · exact .inr (.inr (ih he))

theorem not_mem_topMarks (hn : f.marks.Nodup) (he : e ∈ f.elements) (hm : m ∈ e.children.marks) :
    m ∉ f.topMarks := by
  have hinside {g : Forest α} {x : Element α} (hx : x ∈ g.elements)
      (h : m ∈ x.children.marks) : m ∈ g.marks :=
    mem_marks_of_mem (mem_descendants_of_mem_elements hx) h
  induction f with
  | nil => cases he
  | leaf x kind content next ih =>
    obtain ⟨hx, hnext⟩ := List.nodup_cons.mp hn
    rw [topMarks, List.mem_cons, not_or]
    exact ⟨fun h => hx (h ▸ hinside he hm), ih hnext he⟩
  | element x t children next _ ih =>
    simp only [marks, List.nodup_cons, List.mem_append, not_or, List.nodup_append] at hn
    obtain ⟨⟨hxc, hxn⟩, -, hnext, hdisjoint⟩ := hn
    simp only [elements, List.mem_cons] at he
    rw [topMarks, List.mem_cons, not_or]
    rcases he with rfl | he
    · exact ⟨fun h => hxc (h ▸ hm), fun h => hdisjoint m hm m (topMarks_subset next h) rfl⟩
    · exact ⟨fun h => hxn (h ▸ hinside he hm), ih hnext he⟩

theorem mem_topMarks_of_mem_elements (he : e ∈ f.elements) : e.mark ∈ f.topMarks := by
  induction f with
  | nil => cases he
  | leaf x kind content next ih => exact List.mem_cons_of_mem _ (ih he)
  | element x t children next _ ih =>
    rcases List.mem_cons.mp he with rfl | he
    · exact List.mem_cons_self
    · exact List.mem_cons_of_mem _ (ih he)

theorem mem_map_descendants_iff (hn : f.marks.Nodup) (he : e ∈ f.descendants)
    (hx : x ∈ f.descendants) :
    x.mark ∈ e.children.descendants.map (·.mark) ↔ x ∈ e.children.descendants := by
  refine ⟨fun hm => ?_, List.mem_map_of_mem⟩
  obtain ⟨y, hy, hmark⟩ := List.mem_map.mp hm
  exact eq_of_mark_eq hn (mem_descendants_trans he hy) hx hmark ▸ hy

theorem mem_map_elements_iff (hn : f.marks.Nodup) (he : e ∈ f.descendants)
    (hx : x ∈ f.descendants) :
    x.mark ∈ e.children.elements.map (·.mark) ↔ x ∈ e.children.elements := by
  refine ⟨fun hm => ?_, List.mem_map_of_mem⟩
  obtain ⟨y, hy, hmark⟩ := List.mem_map.mp hm
  have hinner := mem_descendants_trans he (mem_descendants_of_mem_elements hy)
  exact eq_of_mark_eq hn hinner hx hmark ▸ hy

end Mailgrid.Markup.Forest
