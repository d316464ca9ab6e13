import Mailgrid.Proofs.Markup.Plain

/-!
# What stands directly in elements

Properties of the elements that are children of chosen ones, and how they come
through when tags are changed.
-/

namespace Mailgrid.Markup.Forest

/-- What stands directly in elements with such marks has this property. -/
def Directly (S : α → Prop) (Q : α → Tag → Prop) : Forest α → Prop
  | nil => True
  | leaf _ _ _ next => next.Directly S Q
  | element m _ children next =>
    (S m → ∀ e ∈ children.elements, Q e.mark e.tag) ∧ children.Directly S Q ∧ next.Directly S Q

variable {S S' : α → Prop} {Q Q' : α → Tag → Prop} {f g : Forest α}

theorem directly_iff : f.Directly S Q ↔ ∀ c ∈ f.descendants, S c.mark →
    ∀ e ∈ c.children.elements, Q e.mark e.tag := by
  induction f with
  | nil => exact ⟨fun _ => nofun, fun _ => trivial⟩
  | leaf m kind content next ih => exact ih
  | element m t children next ihc ih =>
    simp only [Directly, descendants, List.forall_mem_cons, List.forall_mem_append, ihc, ih]

theorem directly_append : (f ++ g).Directly S Q ↔ f.Directly S Q ∧ g.Directly S Q := by
  induction f with
  | nil => exact ⟨fun h => ⟨trivial, h⟩, And.right⟩
  | leaf m kind content next ih => exact ih
  | element m t children next _ ih =>
    simp only [element_append, Directly, ih, and_assoc]

theorem Directly.mono (h : f.Directly S Q) (hS : ∀ m ∈ f.marks, S' m → S m)
    (hQ : ∀ m t, Q m t → Q' m t) : f.Directly S' Q' := by
  induction f with
  | nil => trivial
  | leaf m kind content next ih => exact ih h fun x hx => hS x (List.mem_cons_of_mem _ hx)
  | element m t children next ihc ih =>
    obtain ⟨hhere, hchildren, hnext⟩ := h
    simp only [marks, List.forall_mem_cons, List.forall_mem_append] at hS
    obtain ⟨hm, hinner, hbehind⟩ := hS
    exact ⟨fun hs e he => hQ _ _ (hhere (hm hs) e he), ihc hchildren hinner, ih hnext hbehind⟩

theorem directly_of_not (h : ∀ m ∈ f.marks, ¬ S m) : f.Directly S Q := by
  induction f with
  | nil => trivial
  | leaf m kind content next ih => exact ih fun x hx => h x (List.mem_cons_of_mem _ hx)
  | element m t children next ihc ih =>
    simp only [marks, List.forall_mem_cons, List.forall_mem_append] at h
    exact ⟨fun hs => absurd hs h.1, ihc h.2.1, ih h.2.2⟩

theorem forall_elements_mapTags {change : Tag → Tag} {P : α → Tag → Prop} :
    (∀ e ∈ (f.mapTags change).elements, P e.mark e.tag) ↔
      ∀ e ∈ f.elements, P e.mark (change e.tag) := by
  induction f with
  | nil => exact ⟨fun _ => nofun, fun _ => nofun⟩
  | leaf m kind content next ih => exact ih
  | element m t children next _ ih => simp only [mapTags, elements, List.forall_mem_cons, ih]

theorem forall_elements_mapTop {change : Tag → Tag} {P : α → Tag → Prop} :
    (∀ e ∈ (f.mapTop change).elements, P e.mark e.tag) ↔
      ∀ e ∈ f.elements, P e.mark (change e.tag) := by
  induction f with
  | nil => exact ⟨fun _ => nofun, fun _ => nofun⟩
  | leaf m kind content next ih => exact ih
  | element m t children next _ ih => simp only [mapTop, elements, List.forall_mem_cons, ih]

theorem forall_elements_bare {P : Tag → Prop} :
    (∀ e ∈ f.bare.elements, P e.tag) ↔ ∀ e ∈ f.elements, P e.tag := by
  induction f with
  | nil => exact ⟨fun _ => nofun, fun _ => nofun⟩
  | leaf m kind content next ih => exact ih
  | element m t children next _ ih => simp only [bare, elements, List.forall_mem_cons, ih]

theorem Directly.mapTags {change : Tag → Tag} (h : f.Directly S Q)
    (hQ : ∀ m t, Q m t → Q m (change t)) : (f.mapTags change).Directly S Q := by
  induction f with
  | nil => trivial
  | leaf m kind content next ih => exact ih h
  | element m t children next ihc ih =>
    obtain ⟨hhere, hchildren, hnext⟩ := h
    refine ⟨fun hs => ?_, ihc hchildren, ih hnext⟩
    exact forall_elements_mapTags.mpr fun e he => hQ _ _ (hhere hs e he)

theorem Directly.mapTop (change : Tag → Tag) (h : f.Directly S Q) :
    (f.mapTop change).Directly S Q := by
  induction f with
  | nil => trivial
  | leaf m kind content next ih => exact ih h
  | element m t children next _ ih => exact ⟨h.1, h.2.1, ih h.2.2⟩

theorem mark_mem_topMarks : ∀ e ∈ f.elements, e.mark ∈ f.topMarks := by
  induction f with
  | nil => exact nofun
  | leaf m kind content next ih => exact fun e he => List.mem_cons_of_mem _ (ih e he)
  | element m t children next _ ih =>
    refine List.forall_mem_cons.mpr ⟨List.mem_cons_self, ?_⟩
    exact fun e he => List.mem_cons_of_mem _ (ih e he)

end Mailgrid.Markup.Forest
