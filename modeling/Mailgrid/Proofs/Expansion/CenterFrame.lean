import Mailgrid.Proofs.Expansion.Centered
import Mailgrid.Proofs.Markup.ByMark
import Mailgrid.Proofs.Markup.ClassWords

/-!
# What centering changes

Of the outermost elements of a forest centering changes the alignment and one
class, of the items in it the class alone, and of all other elements nothing.
What is centered stays as it is when it is centered again.
-/

namespace Mailgrid

open Markup (AttributeValue Element Forest Tag)

-- ---------------------------------------------------------------------------
-- Attributes that stay

section
variable {κ ν : Type} [BEq κ] [LawfulBEq κ] {key : κ} {value : ν} {table : List (κ × ν)}

theorem Table.assign_of_lookup_eq_some (h : table.lookup key = some value) :
    assign key value table = table := by
  induction table with
  | nil => cases h
  | cons entry rest ih =>
    obtain ⟨k, v⟩ := entry
    by_cases hk : key = k
    · subst hk
      simp only [List.lookup_cons, BEq.rfl, Option.some.injEq] at h
      simp [assign, h]
    · simp only [List.lookup_cons, beq_false_of_ne hk] at h
      simp [assign, hk, ih h]

theorem Table.filter_assign {keep : κ → Bool} (h : keep key = false) (value : ν)
    (table : List (κ × ν)) :
    (assign key value table).filter (fun a => keep a.1) = table.filter fun a => keep a.1 := by
  induction table with
  | nil => simp [assign, h]
  | cons entry rest ih =>
    obtain ⟨k, v⟩ := entry
    by_cases hk : key = k
    · subst hk
      simp [assign, h]
    · simp [assign, hk, List.filter_cons, ih]

end

namespace Markup.Tag

variable {t : Tag} {name : String} {keep : String → Bool}

theorem set_of_get? {value : AttributeValue} (h : t.get? name = some value) :
    t.set name value = t :=
  congrArg (Tag.mk t.name · t.void) (Table.assign_of_lookup_eq_some h)

theorem filter_set (h : keep name = false) (t : Tag) (value : AttributeValue) :
    (t.set name value).attributes.filter (fun a => keep a.1) =
      t.attributes.filter fun a => keep a.1 :=
  Table.filter_assign h value t.attributes

theorem filter_addClass (h : t.hasClass name = false → keep "class" = false) :
    (t.addClass name).attributes.filter (fun a => keep a.1) =
      t.attributes.filter fun a => keep a.1 := by
  unfold addClass
  split
  · rfl
  · rename_i hn
    exact filter_set (h (by simpa using hn)) t _

@[simp] theorem void_set (t : Tag) (name : String) (value : AttributeValue) :
    (t.set name value).void = t.void := rfl

@[simp] theorem void_addClass (t : Tag) (name : String) : (t.addClass name).void = t.void := by
  unfold addClass
  split <;> rfl

end Markup.Tag

namespace Expansion

/-- A menu item with one more class. -/
def floated (rules : Rules) (t : Tag) : Tag :=
  if isItem rules t then t.addClass "float-center" else t

variable {rules : Rules} {t : Tag} {f : Forest α}

-- ---------------------------------------------------------------------------
-- Centering again

theorem IsCentered.centered_eq (h : IsCentered t) : centered t = t := by
  rw [centered, Tag.set_of_get? h.align, Tag.addClass_of_hasClass h.floats]

theorem floated_of_hasClass (h : t.hasClass "float-center" = true) : floated rules t = t := by
  unfold floated
  split
  · exact Tag.addClass_of_hasClass h
  · rfl

theorem floated_centered (rules : Rules) (t : Tag) : floated rules (centered t) = centered t :=
  floated_of_hasClass (isCentered_centered t).floats

theorem floated_floated (rules : Rules) (t : Tag) :
    floated rules (floated rules t) = floated rules t := by
  by_cases hitem : isItem rules t = true
  · refine floated_of_hasClass ?_
    rw [floated, if_pos hitem]
    exact hasClass_addClass t
  · have hsame : floated rules t = t := if_neg hitem
    rw [hsame, hsame]

theorem center_element (rules : Rules) (m : α) (t : Tag) (children next : Forest α) :
    center rules (.element m t children next) =
      .element m (centered t) (children.mapTags (floated rules)) (center rules next) :=
  congrArg (Forest.element m · _ _) (floated_centered rules t)

/-- What is centered already is not changed. -/
theorem center_center (rules : Rules) (f : Forest α) :
    center rules (center rules f) = center rules f := by
  have hfloated (f : Forest α) :
      (f.mapTags (floated rules)).mapTags (floated rules) = f.mapTags (floated rules) := by
    induction f with
    | nil => rfl
    | leaf _ _ _ _ ih => simp only [Forest.mapTags, ih]
    | element _ _ _ _ ihc ih => simp only [Forest.mapTags, ihc, ih, floated_floated]
  induction f with
  | nil => rfl
  | leaf m kind content next ih => exact congrArg (Forest.leaf m kind content) ih
  | element m t children next _ ih =>
    rw [center_element, center_element, ih, hfloated, (isCentered_centered t).centered_eq]

-- ---------------------------------------------------------------------------
-- Centering by mark

section
variable [DecidableEq α]

/-- What centering a forest makes of the tag with this mark. -/
def centering (rules : Rules) (f : Forest α) (mark : α) (t : Tag) : Tag :=
  if mark ∈ f.elements.map (·.mark) then centered t
  else if mark ∈ f.descendants.map (·.mark) then floated rules t
  else t

theorem centering_of_not_mem {mark : α} (h : mark ∉ f.marks) : centering rules f mark t = t := by
  have hinner : mark ∉ f.descendants.map (·.mark) :=
    fun hm => h (f.marks_descendants_sublist.subset hm)
  have houter : mark ∉ f.elements.map (·.mark) := by
    intro hm
    obtain ⟨e, he, rfl⟩ := List.mem_map.mp hm
    exact h (Forest.mark_mem_marks (Forest.mem_descendants_of_mem_elements he))
  rw [centering, if_neg houter, if_neg hinner]

theorem center_eq_mapMarked (rules : Rules) (h : f.marks.Nodup) :
    center rules f = f.mapMarked (centering rules f) := by
  induction f with
  | nil => rfl
  | leaf m kind content next ih =>
    rw [Forest.marks, List.nodup_cons] at h
    exact congrArg (Forest.leaf m kind content) (ih h.2)
  | element m t children next _ ih =>
    simp only [Forest.marks, List.nodup_cons, List.nodup_append, List.mem_append, not_or] at h
    obtain ⟨⟨hmc, hmn⟩, -, hnext, hdisjoint⟩ := h
    rw [center_element, ih hnext, Forest.mapTags_eq_mapMarked, Forest.mapMarked]
    have htag : centering rules (.element m t children next) m t = centered t :=
      if_pos List.mem_cons_self
    have hinside : children.mapMarked (centering rules (.element m t children next)) =
        children.mapMarked fun _ => floated rules := by
      refine Forest.mapMarked_congr fun e he => ?_
      have hmark := Forest.mark_mem_marks he
      have houter : e.mark ∉ (Forest.element m t children next).elements.map (·.mark) := by
        rw [Forest.elements, List.map_cons, List.mem_cons, not_or]
        have hne : e.mark ≠ m := fun h => hmc (h ▸ hmark)
        refine ⟨hne, fun hm => ?_⟩
        obtain ⟨x, hx, hsame⟩ := List.mem_map.mp hm
        have hbehind := Forest.mark_mem_marks (Forest.mem_descendants_of_mem_elements hx)
        exact hdisjoint _ hmark _ hbehind hsame.symm
      have hinner : e.mark ∈ (Forest.element m t children next).descendants.map (·.mark) :=
        List.mem_map_of_mem (List.mem_cons_of_mem _ (List.mem_append_left _ he))
      rw [centering, if_neg houter, if_pos hinner]
    have hbehind : next.mapMarked (centering rules (.element m t children next)) =
        next.mapMarked (centering rules next) := by
      refine Forest.mapMarked_congr fun e he => ?_
      have hne : e.mark ≠ m := fun h => hmn (h ▸ Forest.mark_mem_marks he)
      have hinner : e.mark ∈ next.descendants.map (·.mark) := List.mem_map_of_mem he
      have hchild : (e.mark ∈ (Forest.element m t children next).elements.map (·.mark)) ↔
          e.mark ∈ next.elements.map (·.mark) := by
        simp [Forest.elements, hne]
      have hboth : e.mark ∈ (Forest.element m t children next).descendants.map (·.mark) := by
        rw [Forest.descendants, List.map_cons, List.map_append]
        exact List.mem_cons_of_mem _ (List.mem_append_right _ hinner)
      simp only [centering, hchild, if_pos hinner, if_pos hboth]
    rw [htag, hinside, hbehind]

end

-- ---------------------------------------------------------------------------
-- What becomes of a tag

/-- Is an element one that centering a forest gives the class to? -/
def Floats (rules : Rules) (f : Forest α) (e : Element α) : Prop :=
  e ∈ f.elements ∨ (e ∈ f.descendants ∧ isItem rules e.tag = true)

/-- What becomes of the tag of an element when a forest is centered. -/
structure TagCentered (rules : Rules) (f : Forest α) (e : Element α) (t : Tag) : Prop where
  name : t.name = e.tag.name
  void : t.void = e.tag.void
  align : e ∈ f.elements → t.get? "align" = some (.text "center")
  classes : Floats rules f e → t.classes =
    if e.tag.hasClass "float-center" then e.tag.classes else e.tag.classes ++ ["float-center"]
  /-- All attributes stay but for those two, where they are changed. -/
  others : ∀ keep : String → Bool, (e ∈ f.elements → keep "align" = false) →
    (Floats rules f e → e.tag.hasClass "float-center" = false → keep "class" = false) →
      t.attributes.filter (fun a => keep a.1) = e.tag.attributes.filter fun a => keep a.1

theorem TagCentered.eq {e : Element α} (h : TagCentered rules f e t) (hf : ¬Floats rules f e) :
    t = e.tag := by
  have hchild : e ∉ f.elements := fun he => hf (.inl he)
  have hattributes := h.others (fun _ => true) (fun he => absurd he hchild) fun he => absurd he hf
  simp only [List.filter_true] at hattributes
  exact (Tag.mk.injEq ..).mpr ⟨h.name, hattributes, h.void⟩

section
variable {e x : Element α}

theorem tagCentered_child (rules : Rules) (hwords : e.tag.ListsWords) (hc : e ∈ f.elements) :
    TagCentered rules f e (centered e.tag) := by
  have hset := hwords.set_of_ne (show "class" ≠ "align" by decide) (.text "center")
  have hclasses := hset.classes_addClass wordsOf_floatCenter
  rw [Tag.classes_set_of_ne _ (by decide), Tag.hasClass_set _ (by decide)] at hclasses
  refine ⟨name_centered _, by simp [centered], fun _ => (isCentered_centered _).align,
    fun _ => hclasses, fun keep halign hclass => ?_⟩
  refine (Tag.filter_addClass fun hn => ?_).trans (Tag.filter_set (halign hc) _ _)
  rw [Tag.hasClass_set _ (by decide)] at hn
  exact hclass (.inl hc) hn

theorem tagCentered_item (hwords : e.tag.ListsWords) (hc : e ∉ f.elements)
    (hi : e ∈ f.descendants ∧ isItem rules e.tag = true) :
    TagCentered rules f e (e.tag.addClass "float-center") where
  name := Tag.name_addClass _ _
  void := Tag.void_addClass _ _
  align h := absurd h hc
  classes _ := hwords.classes_addClass wordsOf_floatCenter
  others _ _ hclass := Tag.filter_addClass (hclass (.inr hi))

theorem tagCentered_other (h : ¬Floats rules f e) : TagCentered rules f e e.tag where
  name := rfl
  void := rfl
  align hc := absurd (.inl hc) h
  classes hc := absurd hc h
  others _ _ _ := rfl

/-- In a forest whose marks are all different, centering what is in an element makes just that of
all tags. -/
theorem tagCentered_centering [DecidableEq α] (rules : Rules) (hf : f.marks.Nodup)
    (he : e ∈ f.descendants) (hx : x ∈ f.descendants) (hwords : x.tag.ListsWords) :
    TagCentered rules e.children x (centering rules e.children x.mark x.tag) := by
  have hchild := Forest.mem_map_elements_iff hf he hx
  have hinner := Forest.mem_map_descendants_iff hf he hx
  unfold centering
  by_cases hc : x ∈ e.children.elements
  · rw [if_pos (hchild.mpr hc)]
    exact tagCentered_child rules hwords hc
  rw [if_neg (mt hchild.mp hc)]
  by_cases hi : x ∈ e.children.descendants
  · rw [if_pos (hinner.mpr hi), floated]
    split
    · rename_i hitem
      exact tagCentered_item hwords hc ⟨hi, hitem⟩
    · rename_i hitem
      exact tagCentered_other fun h => h.elim hc fun h => hitem h.2
  · rw [if_neg (mt hinner.mp hi)]
    exact tagCentered_other fun h => h.elim hc fun h => hi h.1

end

end Expansion

end Mailgrid
