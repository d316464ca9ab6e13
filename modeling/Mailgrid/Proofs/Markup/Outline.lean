import Mailgrid.Markup.Forest

/-!
# Outlines

A forest as the list of its nodes in document order, each with its depth but
without what it holds. Searching a forest goes along its outline, and changing
the forest at the place that is found leaves the outline as it is before and
behind that place.

`free` is the part of an outline that lies outside certain elements.
-/

namespace Mailgrid.Markup

/-- A node without what it holds. -/
inductive Heading where
  | leaf (kind : LeafKind) (content : String)
  | element (tag : Tag)
  deriving DecidableEq

structure Entry (α : Type) where
  depth : Nat
  mark : α
  heading : Heading
  deriving DecidableEq

namespace Node

def heading : Node α → Heading
  | .leaf kind content => .leaf kind content
  | .element tag _ => .element tag

def children : Node α → Forest α
  | .leaf _ _ => .nil
  | .element _ children => children

end Node

namespace Forest

/-- All nodes in document order; the outermost are at the given depth. -/
def outline (depth : Nat) : Forest α → List (Entry α)
  | nil => []
  | leaf m kind content next => ⟨depth, m, .leaf kind content⟩ :: next.outline depth
  | element m tag children next =>
    ⟨depth, m, .element tag⟩ :: (children.outline (depth + 1) ++ next.outline depth)

/-- The nodes that are not, and are not inside, an element with a tag that is held. -/
def free (held : Tag → Bool) (depth : Nat) : Forest α → List (Entry α)
  | nil => []
  | leaf m kind content next => ⟨depth, m, .leaf kind content⟩ :: next.free held depth
  | element m tag children next =>
    (if held tag then [] else ⟨depth, m, .element tag⟩ :: children.free held (depth + 1)) ++
      next.free held depth

theorem outline_append (f g : Forest α) (depth : Nat) :
    (f ++ g).outline depth = f.outline depth ++ g.outline depth := by
  induction f with
  | nil => rfl
  | leaf _ _ _ _ ih => simp [outline, ih]
  | element _ _ _ _ _ ih => simp [outline, ih]

theorem free_append (held : Tag → Bool) (f g : Forest α) (depth : Nat) :
    (f ++ g).free held depth = f.free held depth ++ g.free held depth := by
  induction f with
  | nil => rfl
  | leaf _ _ _ _ ih => simp [free, ih]
  | element _ _ _ _ _ ih => simp [free, ih]

theorem marks_outline (f : Forest α) (depth : Nat) :
    (f.outline depth).map (·.mark) = f.marks := by
  induction f generalizing depth with
  | nil => rfl
  | leaf _ _ _ _ ih => simp [outline, marks, ih]
  | element _ _ _ _ ihc ih => simp [outline, marks, ihc, ih]

theorem mem_outline_of_mem_descendants {f : Forest α} {e : Element α} (h : e ∈ f.descendants)
    (depth : Nat) : ∃ x ∈ f.outline depth, x.mark = e.mark ∧ x.heading = .element e.tag := by
  induction f generalizing depth with
  | nil => cases h
  | leaf m kind content next ih =>
    obtain ⟨x, hx, hs⟩ := ih h depth
    exact ⟨x, List.mem_cons_of_mem _ hx, hs⟩
  | element m tag children next ihc ih =>
    simp only [descendants, List.mem_cons, List.mem_append] at h
    simp only [outline, List.mem_cons, List.mem_append]
    rcases h with rfl | h | h
    · exact ⟨_, .inl rfl, rfl, rfl⟩
    · obtain ⟨x, hx, hs⟩ := ihc h (depth + 1)
      exact ⟨x, .inr (.inl hx), hs⟩
    · obtain ⟨x, hx, hs⟩ := ih h depth
      exact ⟨x, .inr (.inr hx), hs⟩

-- ---------------------------------------------------------------------------
-- Around a place

/-- The node at a place stands in a forest between two parts of the outline, and a change of it
changes nothing else. -/
structure Between (f : Forest α) (depth : Nat) (place : Place α) (before : List (Entry α))
    (level : Nat) (after : List (Entry α)) : Prop where
  outline : f.outline depth = before ++ ⟨level, place.mark, place.node.heading⟩ ::
    (place.node.children.outline (level + 1) ++ after)
  replace : ∀ wanted : α → Bool, wanted place.mark = true →
    (∀ e ∈ before ++ after, wanted e.mark = false) → ∀ new : Forest α,
      (f.replace wanted new).outline depth = before ++ (new.outline level ++ after)
  adapt : ∀ wanted : α → Bool, wanted place.mark = true →
    (∀ e ∈ before ++ after, wanted e.mark = false) → ∀ change tag children,
      place.node = .element tag children → (f.adapt wanted change).outline depth =
        before ++ ⟨level, place.mark, .element (change tag children).1⟩ ::
          ((change tag children).2.outline (level + 1) ++ after)

theorem adapt_of_not_mem {wanted : α → Bool} {f : Forest α}
    (change : Tag → Forest α → Tag × Forest α) (h : ∀ m ∈ f.marks, wanted m = false) :
    f.adapt wanted change = f := by
  induction f with
  | nil => rfl
  | leaf _ _ _ _ ih =>
    simp only [marks, List.mem_cons, forall_eq_or_imp] at h
    simp [adapt, ih h.2]
  | element _ _ _ _ ihc ih =>
    simp only [marks, List.mem_cons, List.mem_append, forall_eq_or_imp] at h
    simp [adapt, h.1, ihc fun m hm => h.2 m (.inl hm), ih fun m hm => h.2 m (.inr hm)]

theorem not_wanted_of_outline {wanted : α → Bool} {f : Forest α} (depth : Nat)
    (h : ∀ e ∈ f.outline depth, wanted e.mark = false) : ∀ m ∈ f.marks, wanted m = false := by
  intro m hm
  rw [← f.marks_outline depth] at hm
  obtain ⟨e, he, rfl⟩ := List.mem_map.mp hm
  exact h e he

section
variable {depth level : Nat} {place : Place α} {before after : List (Entry α)} {f : Forest α}

theorem between_leaf (m : α) (kind : LeafKind) (content : String) (next : Forest α)
    (around others : List (Element α)) :
    (Forest.leaf m kind content next).Between depth ⟨m, .leaf kind content, around, others⟩ []
      depth (next.outline depth) := by
  refine ⟨by simp [Forest.outline, Node.heading, Node.children], ?_, ?_⟩
  · intro wanted hw _ new
    simp [Forest.replace, hw, outline_append]
  · intro _ _ _ _ _ _ hn
    cases hn

theorem between_element (m : α) (tag : Tag) (children next : Forest α)
    (around others : List (Element α)) :
    (Forest.element m tag children next).Between depth ⟨m, .element tag children, around, others⟩
      [] depth (next.outline depth) := by
  refine ⟨by simp [Forest.outline, Node.heading, Node.children], ?_, ?_⟩
  · intro wanted hw _ new
    simp [Forest.replace, hw, outline_append]
  · intro wanted hw _ change tag' children' hn
    cases hn
    simp [Forest.adapt, hw, Forest.outline]

theorem Between.behind_leaf (h : f.Between depth place before level after) (m : α)
    (kind : LeafKind) (content : String) :
    (Forest.leaf m kind content f).Between depth place
      (⟨depth, m, .leaf kind content⟩ :: before) level after := by
  refine ⟨by simp [Forest.outline, h.outline], ?_, ?_⟩
  · intro wanted hw hb new
    simp only [List.cons_append, List.mem_cons, forall_eq_or_imp] at hb
    simp [Forest.replace, Forest.outline, hb.1, h.replace wanted hw hb.2]
  · intro wanted hw hb change tag children hn
    simp only [List.cons_append, List.mem_cons, forall_eq_or_imp] at hb
    simp [Forest.adapt, Forest.outline, h.adapt wanted hw hb.2 change tag children hn]

theorem Between.inside (h : f.Between (depth + 1) place before level after) (m : α) (tag : Tag)
    (next : Forest α) :
    (Forest.element m tag f next).Between depth place
      (⟨depth, m, .element tag⟩ :: before) level (after ++ next.outline depth) := by
  have split {wanted : α → Bool} (hb : ∀ e ∈ (⟨depth, m, .element tag⟩ :: before) ++
      (after ++ next.outline depth), wanted e.mark = false) :
      wanted m = false ∧ (∀ e ∈ before ++ after, wanted e.mark = false) ∧
        ∀ x ∈ next.marks, wanted x = false := by
    refine ⟨hb ⟨depth, m, .element tag⟩ (by simp), fun e he => hb e ?_,
      not_wanted_of_outline depth fun e he => hb e ?_⟩
    · rcases List.mem_append.mp he with he | he <;> simp [he]
    · simp [he]
  refine ⟨by simp [Forest.outline, h.outline], ?_, ?_⟩
  · intro wanted hw hb new
    obtain ⟨hm, hi, hn⟩ := split hb
    simp [Forest.replace, Forest.outline, hm, h.replace wanted hw hi, replace_of_not_mem new hn]
  · intro wanted hw hb change tag' children' he
    obtain ⟨hm, hi, hn⟩ := split hb
    simp [Forest.adapt, Forest.outline, hm, h.adapt wanted hw hi change tag' children' he,
      adapt_of_not_mem change hn]

theorem Between.behind_element (h : f.Between depth place before level after) (m : α) (tag : Tag)
    (children : Forest α) :
    (Forest.element m tag children f).Between depth place
      (⟨depth, m, .element tag⟩ :: (children.outline (depth + 1) ++ before)) level after := by
  have split {wanted : α → Bool} (hb : ∀ e ∈ (⟨depth, m, .element tag⟩ ::
      (children.outline (depth + 1) ++ before)) ++ after, wanted e.mark = false) :
      wanted m = false ∧ (∀ x ∈ children.marks, wanted x = false) ∧
        ∀ e ∈ before ++ after, wanted e.mark = false := by
    refine ⟨hb ⟨depth, m, .element tag⟩ (by simp),
      not_wanted_of_outline (depth + 1) fun e he => hb e (by simp [he]),
      fun e he => hb e ?_⟩
    rcases List.mem_append.mp he with he | he <;> simp [he]
  refine ⟨by simp [Forest.outline, h.outline], ?_, ?_⟩
  · intro wanted hw hb new
    obtain ⟨hm, hc, hi⟩ := split hb
    simp [Forest.replace, Forest.outline, hm, h.replace wanted hw hi, replace_of_not_mem new hc]
  · intro wanted hw hb change tag' children' he
    obtain ⟨hm, hc, hi⟩ := split hb
    simp [Forest.adapt, Forest.outline, hm, h.adapt wanted hw hi change tag' children' he,
      adapt_of_not_mem change hc]

theorem exists_between_of_mem {e : Element α} (he : e ∈ f.descendants) (depth : Nat) :
    ∃ before level after,
      f.Between depth ⟨e.mark, .element e.tag e.children, [], []⟩ before level after := by
  induction f generalizing depth with
  | nil => cases he
  | leaf m kind content next ih =>
    obtain ⟨before, level, after, h⟩ := ih he depth
    exact ⟨_, level, after, h.behind_leaf m kind content⟩
  | element m tag children next ihc ih =>
    simp only [descendants, List.mem_cons, List.mem_append] at he
    rcases he with rfl | he | he
    · exact ⟨[], depth, _, between_element m tag children next [] []⟩
    · obtain ⟨before, level, after, h⟩ := ihc he (depth + 1)
      exact ⟨_, level, _, h.inside m tag next⟩
    · obtain ⟨before, level, after, h⟩ := ih he depth
      exact ⟨_, level, after, h.behind_element m tag children⟩

theorem Between.mark_ne (h : f.Between depth place before level after) (hn : f.marks.Nodup) :
    ∀ x ∈ before ++ after, x.mark ≠ place.mark := by
  rw [← marks_outline f depth, h.outline] at hn
  simp only [List.map_append, List.map_cons, List.nodup_append, List.nodup_cons, List.mem_append,
    List.mem_cons, List.mem_map, not_or] at hn
  intro x hx
  rcases List.mem_append.mp hx with hx | hx
  · exact hn.2.2 _ ⟨x, hx, rfl⟩ _ (.inl rfl)
  · exact fun hm => hn.2.1.1.2 ⟨x, hx, hm⟩

theorem Between.heading_of_mark (h : f.Between depth place before level after)
    (hn : f.marks.Nodup) {x : Entry α} (hx : x ∈ f.outline depth) (hm : x.mark = place.mark) :
    x.heading = place.node.heading := by
  have hne := h.mark_ne hn
  rw [← marks_outline f depth, h.outline] at hn
  simp only [List.map_append, List.map_cons, List.nodup_append, List.nodup_cons, List.mem_append,
    List.mem_map, not_or] at hn
  rw [h.outline] at hx
  simp only [List.mem_append, List.mem_cons] at hx
  rcases hx with hx | rfl | hx | hx
  · exact absurd hm (hne x (by simp [hx]))
  · rfl
  · exact absurd ⟨x, hx, hm⟩ hn.2.1.1.1
  · exact absurd hm (hne x (by simp [hx]))

end

-- ---------------------------------------------------------------------------
-- Searching

theorem not_found_of_placeAfter? {wanted : α → Node α → Bool} {look : α → Heading → Bool}
    (hl : ∀ m node, wanted m node = look m node.heading) {f : Forest α}
    {around : List (Element α)} (h : f.placeAfter? wanted around = none) (depth : Nat) :
    ∀ e ∈ f.outline depth, look e.mark e.heading = false := by
  induction f generalizing around depth with
  | nil => simp [outline]
  | leaf m kind content next ih =>
    simp only [placeAfter?, hl, Node.heading] at h
    split at h
    · cases h
    · rename_i hm
      simp only [outline, List.mem_cons, forall_eq_or_imp]
      exact ⟨by simpa using hm, ih h depth⟩
  | element m tag children next ihc ih =>
    simp only [placeAfter?, hl, Node.heading] at h
    split at h
    · cases h
    · rename_i hm
      split at h
      · cases h
      · rename_i hc
        simp only [outline, List.mem_cons, List.mem_append, forall_eq_or_imp]
        refine ⟨by simpa using hm, ?_⟩
        rintro e (he | he)
        · exact ihc hc (depth + 1) e he
        · exact ih h depth e he

/-- The node that is found is wanted, and none before it is. -/
theorem between_of_placeAfter? {wanted : α → Node α → Bool} {look : α → Heading → Bool}
    (hl : ∀ m node, wanted m node = look m node.heading) {f : Forest α}
    {around : List (Element α)} {place : Place α} (h : f.placeAfter? wanted around = some place)
    (depth : Nat) :
    ∃ before level after, f.Between depth place before level after ∧
      ∀ e ∈ before, look e.mark e.heading = false := by
  induction f generalizing around depth with
  | nil => cases h
  | leaf m kind content next ih =>
    simp only [placeAfter?] at h
    split at h
    · cases h
      exact ⟨[], depth, _, between_leaf m kind content next _ _, by simp⟩
    · rename_i hm
      obtain ⟨before, level, after, hb, hn⟩ := ih h depth
      refine ⟨_, level, after, hb.behind_leaf m kind content, ?_⟩
      simp only [List.mem_cons, forall_eq_or_imp]
      exact ⟨by simpa [hl, Node.heading] using hm, hn⟩
  | element m tag children next ihc ih =>
    simp only [placeAfter?] at h
    split at h
    · cases h
      exact ⟨[], depth, _, between_element m tag children next _ _, by simp⟩
    · rename_i hm
      replace hm : look m (.element tag) = false := by simpa [hl, Node.heading] using hm
      split at h
      · rename_i hc
        cases h
        obtain ⟨before, level, after, hb, hn⟩ := ihc hc (depth + 1)
        refine ⟨_, level, _, hb.inside m tag next, ?_⟩
        simp only [List.mem_cons, forall_eq_or_imp]
        exact ⟨hm, hn⟩
      · rename_i hc
        obtain ⟨before, level, after, hb, hn⟩ := ih h depth
        refine ⟨_, level, after, hb.behind_element m tag children, ?_⟩
        simp only [List.mem_cons, List.mem_append, forall_eq_or_imp]
        refine ⟨hm, ?_⟩
        rintro e (he | he)
        · exact not_found_of_placeAfter? hl hc (depth + 1) e he
        · exact hn e he

-- ---------------------------------------------------------------------------
-- What is free stays

/-- Replacing what is held adds free nodes at most. -/
theorem free_sublist_replace {held : Tag → Bool} {wanted : α → Bool} {f : Forest α} {depth : Nat}
    (h : ∀ e ∈ f.outline depth, wanted e.mark = true → ∃ t, e.heading = .element t ∧ held t = true)
    (new : Forest α) : (f.free held depth).Sublist ((f.replace wanted new).free held depth) := by
  induction f generalizing depth with
  | nil => exact .slnil
  | leaf m kind content next ih =>
    simp only [outline, List.mem_cons, forall_eq_or_imp] at h
    have hm : wanted m = false := by
      cases hw : wanted m with
      | false => rfl
      | true => obtain ⟨t, ht, -⟩ := h.1 hw; cases ht
    simp only [replace, hm, free, Bool.false_eq_true, if_false]
    exact (ih h.2).cons_cons _
  | element m tag children next ihc ih =>
    simp only [outline, List.mem_cons, List.mem_append, forall_eq_or_imp] at h
    have hn := ih fun e he => h.2 e (.inr he)
    cases hw : wanted m with
    | true =>
      obtain ⟨t, ht, hh⟩ := h.1 hw
      cases ht
      simp only [replace, hw, free, hh, if_true, List.nil_append, free_append]
      exact List.sublist_append_right _ _
    | false =>
      simp only [replace, hw, free, Bool.false_eq_true, if_false]
      split
      · exact hn
      · exact ((ihc fun e he => h.2 e (.inl he)).cons_cons _).append hn

theorem free_adapt {held : Tag → Bool} {wanted : α → Bool} {f : Forest α} {depth : Nat}
    {change : Tag → Forest α → Tag × Forest α} (hc : ∀ tag children, (change tag children).1 = tag)
    (h : ∀ e ∈ f.outline depth, wanted e.mark = true →
      ∀ t, e.heading = .element t → held t = true) :
    (f.adapt wanted change).free held depth = f.free held depth := by
  induction f generalizing depth with
  | nil => rfl
  | leaf m kind content next ih =>
    simp only [outline, List.mem_cons, forall_eq_or_imp] at h
    simp [adapt, free, ih h.2]
  | element m tag children next ihc ih =>
    simp only [outline, List.mem_cons, List.mem_append, forall_eq_or_imp] at h
    cases hw : wanted m with
    | true => simp [adapt, hw, free, hc, h.1 hw tag rfl]
    | false =>
      simp [adapt, hw, free, ihc fun e he => h.2 e (.inl he), ih fun e he => h.2 e (.inr he)]

end Forest

end Mailgrid.Markup
