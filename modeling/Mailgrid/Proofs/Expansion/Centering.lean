import Mailgrid.Proofs.Expansion.Frame

/-!
# Centering

Centering changes tags, one by one, and of a tag its alignment and one class:
names, all other classes and plainness stay.
-/

namespace Mailgrid

namespace Markup

-- ---------------------------------------------------------------------------
-- Changing a tag

section
variable {t : Tag} {name : String}

theorem Tag.Plain.set (h : t.Plain) (hn : isPlainName name = true) {value : String}
    (hv : Quotable value) : (t.set name (.text value)).Plain := by
  obtain ⟨hname, hreserved, hattributes, hnodup, hvoid⟩ := h
  refine ⟨hname, hreserved, fun a ha => ?_, Table.nodup_assign _ _ hnodup, hvoid⟩
  rcases Table.mem_of_mem_assign ha with rfl | ha
  · exact ⟨hn, isLegibleValue_text.mpr hv⟩
  · exact hattributes a ha

theorem Tag.Plain.addClass (h : t.Plain) (hq : Quotable name) : (t.addClass name).Plain := by
  unfold Tag.addClass
  split
  · exact h
  · refine h.set (by decide) (Quotable.intercalate fun c hc => ?_)
    rcases List.mem_append.mp hc with hc | hc
    · exact h.classes.2 c hc
    · exact List.mem_singleton.mp hc ▸ hq

@[simp] theorem Tag.name_addClass (t : Tag) (name : String) : (t.addClass name).name = t.name := by
  unfold Tag.addClass
  split <;> rfl

theorem Tag.hasClass_set (t : Tag) (hn : "class" ≠ name) (value : AttributeValue)
    (other : String) : (t.set name value).hasClass other = t.hasClass other := by
  rw [Tag.hasClass, Tag.hasClass, Tag.classes, Tag.classes, Tag.get?_set_of_ne t hn]

theorem Tag.Plain.hasClass_addClass (h : t.Plain) (hw : wordsOf name = [name]) {other : String}
    (hne : other ≠ name) : (t.addClass name).hasClass other = t.hasClass other := by
  unfold Tag.addClass
  split
  · rfl
  · have hclasses : (t.set "class" (.text (" ".intercalate (t.classes ++ [name])))).classes =
        t.classes ++ [name] := by
      rw [Tag.classes, Tag.get?_set]
      change wordsOf (" ".intercalate (t.classes ++ [name])) = _
      rw [wordsOf_intercalate, List.flatMap_append, h.classes.1, List.flatMap_singleton, hw]
    rw [Tag.hasClass, hclasses, Tag.hasClass, List.contains_eq_mem, List.contains_eq_mem]
    simp [hne]

end

-- ---------------------------------------------------------------------------
-- Changing tags of a forest

namespace Forest

theorem bare_mapTop (change : Tag → Tag) (f : Forest α) :
    (f.mapTop change).bare = f.bare.mapTop change := by
  induction f with
  | nil => rfl
  | leaf m kind content next ih => rw [mapTop, bare, bare, mapTop, ih]
  | element m tag children next _ ih => rw [mapTop, bare, bare, mapTop, ih]

theorem startsWithText_mapTop (change : Tag → Tag) (f : Forest α) :
    (f.mapTop change).startsWithText = f.startsWithText := by
  cases f with
  | nil => rfl
  | leaf m kind => cases kind <;> rfl
  | element => rfl

variable {change : Tag → Tag}

theorem Plain.mapTags (hc : ∀ t, t.Plain → (change t).Plain ∧ (change t).name = t.name)
    {f : Forest α} (h : f.Plain) : (f.mapTags change).Plain := by
  induction f with
  | nil => trivial
  | leaf m kind content next ih =>
    cases kind with
    | text kind =>
      obtain ⟨htext, hapart, hnext⟩ := h
      exact ⟨htext, (startsWithText_mapTags change next).trans hapart, ih hnext⟩
    | _ => exact absurd h id
  | element m tag children next ihc ih =>
    obtain ⟨htag, hhollow, hchildren, hnext⟩ := h
    obtain ⟨hplain, hname⟩ := hc tag htag
    refine ⟨hplain, fun hv => ?_, ihc hchildren, ih hnext⟩
    rw [isNil_mapTags]
    exact hhollow (by rw [htag.2.2.2.2, ← hname, ← hplain.2.2.2.2, hv])

theorem Plain.mapTop (hc : ∀ t, t.Plain → (change t).Plain ∧ (change t).name = t.name)
    {f : Forest α} (h : f.Plain) : (f.mapTop change).Plain := by
  induction f with
  | nil => trivial
  | leaf m kind content next ih =>
    cases kind with
    | text kind =>
      obtain ⟨htext, hapart, hnext⟩ := h
      exact ⟨htext, (startsWithText_mapTop change next).trans hapart, ih hnext⟩
    | _ => exact absurd h id
  | element m tag children next _ ih =>
    obtain ⟨htag, hhollow, hchildren, hnext⟩ := h
    obtain ⟨hplain, hname⟩ := hc tag htag
    refine ⟨hplain, fun hv => ?_, hchildren, ih hnext⟩
    exact hhollow (by rw [htag.2.2.2.2, ← hname, ← hplain.2.2.2.2, hv])

theorem Every.mapTags {P : Tag → Bool → Prop} (hc : ∀ t b, t.Plain → P t b → P (change t) b)
    {f : Forest α} (hf : f.Plain) (h : f.Every P) : (f.mapTags change).Every P := by
  induction f with
  | nil => exact nofun
  | leaf m kind content next ih =>
    cases kind with
    | text => exact ih hf.2.2 h
    | _ => exact absurd hf id
  | element m tag children next ihc ih =>
    obtain ⟨htag, -, hchildren, hnext⟩ := hf
    obtain ⟨ht, hi, hn⟩ := every_element.mp h
    rw [Forest.mapTags, every_element, isNil_mapTags]
    exact ⟨hc tag _ htag ht, ihc hchildren hi, ih hnext hn⟩

theorem Every.mapTop {P : Tag → Bool → Prop} (hc : ∀ t b, t.Plain → P t b → P (change t) b)
    {f : Forest α} (hf : f.Plain) (h : f.Every P) : (f.mapTop change).Every P := by
  induction f with
  | nil => exact nofun
  | leaf m kind content next ih =>
    cases kind with
    | text => exact ih hf.2.2 h
    | _ => exact absurd hf id
  | element m tag children next _ ih =>
    obtain ⟨htag, -, -, hnext⟩ := hf
    obtain ⟨ht, hi, hn⟩ := every_element.mp h
    exact every_element.mpr ⟨hc tag _ htag ht, hi, ih hnext hn⟩

end Forest

end Markup

namespace Expansion

open Markup (AttributeValue Forest Tag)

-- ---------------------------------------------------------------------------
-- What centering keeps

/-- A menu item has one more class when it is centered. -/
def centeredItem (t : Tag) : Tag :=
  if isItem (.standard 0) t then t.addClass "float-center" else t

variable {t : Tag} {other : String}

theorem wordsOf_floatCenter : Markup.wordsOf "float-center" = ["float-center"] := by decide

theorem name_centered (t : Tag) : (centered t).name = t.name := by
  simp [centered]

theorem name_centeredItem (t : Tag) : (centeredItem t).name = t.name := by
  unfold centeredItem
  split <;> simp

theorem plain_centered (h : t.Plain) : (centered t).Plain :=
  (h.set (by decide) (by decide)).addClass (by decide)

theorem plain_centeredItem (h : t.Plain) : (centeredItem t).Plain := by
  unfold centeredItem
  split
  · exact h.addClass (by decide)
  · exact h

theorem hasClass_centered (h : t.Plain) (hne : other ≠ "float-center") :
    (centered t).hasClass other = t.hasClass other := by
  have hset : (t.set "align" (.text "center")).Plain := h.set (by decide) (by decide)
  rw [centered, hset.hasClass_addClass wordsOf_floatCenter hne, Tag.hasClass_set t (by decide)]

theorem hasClass_centeredItem (h : t.Plain) (hne : other ≠ "float-center") :
    (centeredItem t).hasClass other = t.hasClass other := by
  unfold centeredItem
  split
  · exact h.hasClass_addClass wordsOf_floatCenter hne
  · rfl

theorem center_standard (width : Int) (f : Forest α) :
    center (.standard width) f = (f.mapTop centered).mapTags centeredItem := rfl

theorem bare_center (width : Int) (f : Forest α) :
    (center (.standard width) f).bare = center (.standard width) f.bare := by
  rw [center_standard, center_standard, Forest.bare_mapTags, Forest.bare_mapTop]

theorem plain_mapTop_centered {f : Forest α} (h : f.Plain) : (f.mapTop centered).Plain :=
  h.mapTop fun t ht => ⟨plain_centered ht, name_centered t⟩

theorem plain_mapTags_centeredItem {f : Forest α} (h : f.Plain) :
    (f.mapTags centeredItem).Plain :=
  h.mapTags fun t ht => ⟨plain_centeredItem ht, name_centeredItem t⟩

theorem plain_center (width : Int) {f : Forest α} (h : f.Plain) :
    (center (.standard width) f).Plain :=
  plain_mapTags_centeredItem (plain_mapTop_centered h)

theorem every_center {P : Tag → Bool → Prop} (width : Int)
    (hc : ∀ (t s : Tag) (b : Bool), s.name = t.name →
      (∀ other, other ≠ "float-center" → s.hasClass other = t.hasClass other) → P t b → P s b)
    {f : Forest α} (hf : f.Plain) (h : f.Every P) : (center (.standard width) f).Every P :=
  Forest.Every.mapTags
    (fun t b ht => hc t _ b (name_centeredItem t) fun _ => hasClass_centeredItem ht)
    (plain_mapTop_centered hf)
    (Forest.Every.mapTop (fun t b ht => hc t _ b (name_centered t) fun _ => hasClass_centered ht)
      hf h)

end Expansion

end Mailgrid
