import Mailgrid.Proofs.Expansion.Values

/-!
# Centering that is passed on

A center aligns the elements in it and gives them a class. Most kinds of
component pass on both: the alignment as an attribute that is carried over, the
class among those of the generated element. `isCenteredBy_readResult`: what a
kind passes on, the outermost elements of its expansion have.
-/

namespace Mailgrid

open Markup (AttributeValue Element Forest Tag wordsOf)

namespace Expansion

/-- Does the alignment of a component of this kind come to what is generated for it? -/
def passesAlign : Component → Bool
  | .line | .button | .blockGrid | .marker => false
  | _ => true

/-- Do the classes of a component of this kind come to the outermost element? -/
def passesClasses : Component → Bool
  | .callout | .marker => false
  | _ => true

structure IsCentered (t : Tag) : Prop where
  align : t.get? "align" = some (.text "center")
  floats : t.hasClass "float-center" = true

/-- Centered as far as a component of this kind passes that on. -/
structure IsCenteredBy (kind : Component) (t : Tag) : Prop where
  align : passesAlign kind = true → t.get? "align" = some (.text "center")
  floats : passesClasses kind = true → t.hasClass "float-center" = true

-- ---------------------------------------------------------------------------
-- Centered tags

theorem mem_wordsOf_intercalate {classes : List String} (h : "float-center" ∈ classes) :
    "float-center" ∈ wordsOf (" ".intercalate classes) := by
  rw [Markup.wordsOf_intercalate]
  exact List.mem_flatMap.mpr ⟨_, h, by decide⟩

theorem hasClass_addClass (t : Tag) :
    (t.addClass "float-center").hasClass "float-center" = true := by
  unfold Tag.addClass
  split
  · assumption
  · rw [Tag.hasClass, List.contains_iff_mem, Tag.classes, Tag.get?_set]
    exact mem_wordsOf_intercalate (List.mem_append_right _ List.mem_cons_self)

theorem get?_addClass (t : Tag) {name : String} (h : name ≠ "class") (c : String) :
    (t.addClass c).get? name = t.get? name := by
  unfold Tag.addClass
  split
  · rfl
  · exact Tag.get?_set_of_ne t h _

theorem isCentered_centered (t : Tag) : IsCentered (centered t) := by
  refine ⟨?_, hasClass_addClass _⟩
  rw [centered, get?_addClass _ (by decide), Tag.get?_set]

theorem IsCenteredBy.addClass {kind : Component} {t : Tag} (h : IsCenteredBy kind t) :
    IsCenteredBy kind (t.addClass "float-center") := by
  refine ⟨fun hk => ?_, fun _ => hasClass_addClass t⟩
  rw [get?_addClass t (by decide)]
  exact h.align hk

theorem IsCentered.addClass {t : Tag} (h : IsCentered t) :
    IsCentered (t.addClass "float-center") := by
  refine ⟨?_, hasClass_addClass t⟩
  rw [get?_addClass t (by decide)]
  exact h.align

-- ---------------------------------------------------------------------------
-- Attributes of templates

/-- There is an attribute of this name, and all of them have a value with this property. -/
def Gives (key : String) (V : String → Prop) (attributes : List (String × String)) : Prop :=
  (∃ v, (key, v) ∈ attributes) ∧ ∀ v, (key, v) ∈ attributes → V v

section
variable {key : String} {V : String → Prop} {attributes : List (String × String)}

theorem texts_eq_map : (attributes.map fun (key, value) => (key, AttributeValue.text value)) =
    attributes.map (Prod.map id AttributeValue.text) := rfl

theorem Gives.get? (h : Gives key V attributes) (name : String) :
    ∃ v, (Template.tag name attributes).get? key = some (.text v) ∧ V v := by
  obtain ⟨⟨v, hv⟩, hall⟩ := h
  have hentry : (key, AttributeValue.text v) ∈
      (attributes.map (Prod.map id AttributeValue.text)).reverse :=
    List.mem_reverse.mpr (List.mem_map_of_mem hv)
  rw [Tag.get?, Template.tag, Table.lookup_ofList, texts_eq_map]
  cases hl : (attributes.map (Prod.map id AttributeValue.text)).reverse.lookup key with
  | none => exact absurd (List.lookup_eq_none_iff.mp hl _ hentry) (by simp)
  | some found =>
    obtain ⟨_, _, hsplit, -⟩ := List.lookup_eq_some_iff.mp hl
    have hmem : (key, found) ∈ (attributes.map (Prod.map id AttributeValue.text)).reverse := by
      simp [hsplit]
    obtain ⟨⟨key', v'⟩, hm, he⟩ := List.mem_map.mp (List.mem_reverse.mp hmem)
    cases he
    exact ⟨v', rfl, hall v' hm⟩

theorem Gives.around (h : Gives key V attributes) {before after : List (String × String)}
    (hb : ∀ a ∈ before, a.1 = key → V a.2) (ha : ∀ a ∈ after, a.1 = key → V a.2) :
    Gives key V (before ++ attributes ++ after) := by
  obtain ⟨⟨v, hv⟩, hall⟩ := h
  refine ⟨⟨v, by simp [hv]⟩, fun w hw => ?_⟩
  simp only [List.mem_append] at hw
  rcases hw with (hw | hw) | hw
  · exact hb _ hw rfl
  · exact hall w hw
  · exact ha _ hw rfl

theorem Gives.map {W : String → Prop} (h : Gives key V attributes) {change : String → String}
    (hc : ∀ v, V v → W (change v)) :
    Gives key W (attributes.map fun (key, value) => (key, change value)) := by
  obtain ⟨⟨v, hv⟩, hall⟩ := h
  refine ⟨⟨change v, List.mem_map_of_mem hv⟩, fun w hw => ?_⟩
  obtain ⟨⟨key', u⟩, hm, he⟩ := List.mem_map.mp hw
  cases he
  exact hc u (hall u hm)

end

-- ---------------------------------------------------------------------------
-- Outermost elements of templates

/-- Are the outermost parts all elements, with such attributes? -/
def TopAll (P : List (String × String) → Prop) : Template → Prop
  | .nil => True
  | .piece _ _ => False
  | .element name attributes _ next => Component.named? name = none ∧ P attributes ∧ TopAll P next

theorem TopAll.elements {P : List (String × String) → Prop} {t : Template} (h : TopAll P t)
    (inner : Forest Unit) : ∀ e ∈ (t.forest inner).elements,
      ∃ name attributes, Component.named? name = none ∧ P attributes ∧
        e.tag = Template.tag name attributes := by
  induction t with
  | nil => exact nofun
  | piece => exact h.elim
  | element name attributes content next _ ih =>
    obtain ⟨hname, hattributes, hnext⟩ := h
    exact List.forall_mem_cons.mpr ⟨⟨name, attributes, hname, hattributes, rfl⟩, ih hnext⟩

theorem TopAll.mapValues {P Q : List (String × String) → Prop} {change : String → String}
    (hc : ∀ a, P a → Q (a.map fun (key, value) => (key, change value))) {t : Template}
    (h : TopAll P t) : TopAll Q (t.mapValues change) := by
  induction t with
  | nil => trivial
  | piece => exact h.elim
  | element name attributes content next _ ih =>
    obtain ⟨hname, hattributes, hnext⟩ := h
    exact ⟨hname, hc _ hattributes, ih hnext⟩

-- ---------------------------------------------------------------------------
-- What kinds pass on

/-- Attributes that center an element as far as a component of this kind passes that on. -/
structure Passes (kind : Component) (attributes : List (String × String)) : Prop where
  align : passesAlign kind = true → Gives "align" (· = "center") attributes
  floats : passesClasses kind = true → Gives "class" ("float-center" ∈ wordsOf ·) attributes

theorem Passes.isCenteredBy {kind : Component} {attributes : List (String × String)}
    (h : Passes kind attributes) (name : String) :
    IsCenteredBy kind (Template.tag name attributes) := by
  constructor
  · intro hk
    obtain ⟨v, hv, rfl⟩ := (h.align hk).get? name
    exact hv
  · intro hk
    obtain ⟨v, hv, hword⟩ := (h.floats hk).get? name
    rw [Tag.hasClass, Tag.classes, hv]
    exact List.contains_iff_mem.mpr hword

theorem gives_class {text : String} (ht : "float-center" ∈ wordsOf text)
    {before after : List (String × String)} (hb : ∀ a ∈ before, a.1 ≠ "class")
    (ha : ∀ a ∈ after, a.1 ≠ "class") :
    Gives "class" ("float-center" ∈ wordsOf ·) (before ++ ("class", text) :: after) := by
  have hone : Gives "class" ("float-center" ∈ wordsOf ·) [("class", text)] := by
    refine ⟨⟨text, List.mem_cons_self⟩, fun v hv => ?_⟩
    obtain rfl : v = text := by simpa using hv
    exact ht
  have hall := hone.around (fun a hm h => absurd h (hb a hm)) (fun a hm h => absurd h (ha a hm))
  rwa [List.append_assoc] at hall

section
variable {t : Tag} (halign : Gives "align" (· = "center") (carriedTexts t))
  (hclass : "float-center" ∈ t.classes)

include halign in
theorem gives_align {more : List (String × String)}
    (hm : ∀ a ∈ more, a.1 = "align" → a.2 = "center") :
    Gives "align" (· = "center") (carriedTexts t ++ more) :=
  halign.around (List.forall_mem_nil _) hm

include halign in
theorem passes_carried (kind : Component) {text : String} (hw : "float-center" ∈ wordsOf text) :
    Passes kind (carriedTexts t ++ [("class", text)]) :=
  ⟨fun _ => gives_align halign (by simp),
    fun _ => gives_class hw ne_class_of_mem_carriedTexts (List.forall_mem_nil _)⟩

include halign in
theorem passes_columns {text : String} (hw : "float-center" ∈ wordsOf text) :
    Passes .columns (("class", text) :: carriedTexts t) := by
  refine ⟨fun _ => ?_, fun _ => ?_⟩
  · have hclass : ∀ a ∈ [("class", text)], a.1 = "align" → a.2 = "center" := by simp
    simpa using halign.around hclass (List.forall_mem_nil _)
  · exact gives_class hw (List.forall_mem_nil _) ne_class_of_mem_carriedTexts

theorem floats_append {text shown : String} (hw : "float-center" ∈ wordsOf text)
    (hs : shown ∈ ["", " hide-for-large", " show-for-large"]) :
    "float-center" ∈ wordsOf (text ++ shown) := by
  have happend (more : String) : "float-center" ∈ wordsOf (text ++ (" " ++ more)) := by
    rw [← String.append_assoc, Markup.wordsOf_append]
    exact List.mem_append_left _ hw
  simp only [List.mem_cons, List.not_mem_nil, or_false] at hs
  rcases hs with rfl | rfl | rfl
  · rwa [String.append_empty]
  · exact happend "hide-for-large"
  · exact happend "show-for-large"

include halign hclass

theorem topAll_frame (width : Int) {kind : Component} (hcenter : kind ≠ .center)
    (hmarker : kind ≠ .marker) (children : Forest α) (around : Neighbours) :
    TopAll (Passes kind) (frame width kind t children around) := by
  have htext (kinds : List String) : "float-center" ∈ wordsOf (classText t kinds) :=
    mem_wordsOf_intercalate (List.mem_append_right _ hclass)
  have hcarried : ∀ a ∈ carriedTexts t, a.1 ≠ "class" := ne_class_of_mem_carriedTexts
  -- kinds that carry nothing over have their classes all the same
  have hbare {kinds : List String} (hk : passesAlign kind = false) :
      Passes kind [("class", classText t kinds)] :=
    ⟨fun h => absurd (hk.symm.trans h) Bool.false_ne_true,
      fun _ => gives_class (htext kinds) (List.forall_mem_nil _) (List.forall_mem_nil _)⟩
  cases kind with
  | center => exact absurd rfl hcenter
  | marker => exact absurd rfl hmarker
  | line => exact ⟨rfl, hbare rfl, trivial⟩
  | button => exact ⟨rfl, hbare rfl, trivial⟩
  | blockGrid =>
    rw [frame, blockGrid_eq]
    exact ⟨rfl, hbare rfl, trivial⟩
  | row => exact ⟨rfl, passes_carried halign _ (htext _), trivial⟩
  | menu => exact ⟨rfl, passes_carried halign _ (htext _), trivial⟩
  | menuItem => exact ⟨rfl, passes_carried halign _ (htext _), trivial⟩
  | container =>
    have hbefore : ∀ a ∈ carriedTexts t ++ [("align", "center")], a.1 ≠ "class" :=
      List.forall_mem_append.mpr ⟨hcarried, by simp⟩
    have hclassy := gives_class (htext ["container"]) hbefore (List.forall_mem_nil _)
    rw [List.append_assoc] at hclassy
    exact ⟨rfl, ⟨fun _ => gives_align halign (by simp), fun _ => hclassy⟩, trivial⟩
  | wrapper =>
    refine ⟨rfl, ⟨fun _ => gives_align halign (by simp), fun _ => ?_⟩, trivial⟩
    exact gives_class (htext _) hcarried (by simp)
  | callout =>
    have hclasses : passesClasses .callout = false := rfl
    exact ⟨rfl, ⟨fun _ => gives_align halign (by simp), fun h => absurd (hclasses.symm.trans h)
      Bool.false_ne_true⟩, trivial⟩
  | spacer =>
    rw [frame]
    rcases spacer_cases (carriedTexts t) t with ⟨shown, hs, size, -, h⟩ | ⟨size, size', -, -, h⟩
    · rw [h]
      exact ⟨rfl, passes_carried halign _ (floats_append (htext _) hs), trivial⟩
    · rw [h]
      exact ⟨rfl, passes_carried halign _ (floats_append (htext _) (by decide)), rfl,
        passes_carried halign _ (floats_append (htext _) (by decide)), trivial⟩
  | columns =>
    refine ⟨rfl, passes_columns halign (mem_wordsOf_intercalate ?_), trivial⟩
    simp [columnClasses, hclass]

end

-- ---------------------------------------------------------------------------
-- Results of expansions

theorem floats_protect {text : String} (h : "float-center" ∈ wordsOf text) :
    "float-center" ∈ wordsOf (Format.standard.protect text) := by
  have hblank (c : Char) : Text.isBlank (if c = '&' then '\ue000' else c) = Text.isBlank c := by
    split
    · rename_i hc
      rw [hc]
      rfl
    · rfl
  obtain ⟨word, hw, hword⟩ := List.mem_map.mp h
  rw [Markup.wordsOf, Format.toList_protect, Format.protectedChars_eq_map, Text.words_map hblank,
    List.map_map]
  refine List.mem_map.mpr ⟨word, hw, ?_⟩
  have hchars : word = "float-center".toList := by rw [← hword, String.toList_ofList]
  rw [hchars]
  decide

theorem Passes.protect {kind : Component} {attributes : List (String × String)}
    (h : Passes kind attributes) : Passes kind
      (attributes.map fun (key, value) => (key, Format.standard.protect value)) := by
  have hcenter := Format.protect_of_not_mem (show '&' ∉ "center".toList by decide)
  exact ⟨fun hk => (h.align hk).map fun v hv => hv ▸ hcenter,
    fun hk => (h.floats hk).map fun v hv => floats_protect hv⟩

theorem gives_align_escaped {t : Tag} (ht : t.IsParsed)
    (h : t.get? "align" = some (.text "center")) :
    Gives "align" (· = "center") (carriedTexts (escaped t)) := by
  obtain ⟨_, _, hsplit, -⟩ := List.lookup_eq_some_iff.mp h
  have hmem : ("align", AttributeValue.text "center") ∈ t.attributes := by simp [hsplit]
  have hcarried {v : String} : ("align", v) ∈ carriedTexts (escaped t) ↔
      ∃ value, ("align", value) ∈ t.attributes ∧ quoteEscaped value.shown = v := by
    have hcarries : "align" ∉ consumed := by decide
    rw [carriedTexts_escaped, carriedTexts, List.map_map]
    simp [hcarries]
  constructor
  · exact ⟨_, hcarried.mpr ⟨_, hmem, rfl⟩⟩
  · intro v hv
    obtain ⟨value, hvalue, rfl⟩ := hcarried.mp hv
    cases List.inj_on_of_nodup_map ht.nodup hvalue hmem rfl
    decide

/-- The outermost elements of an expansion have what its kind passes on, and are no components. -/
theorem isCenteredBy_readResult (width : Int) {kind : Component} (hk : kind ≠ .center) {t : Tag}
    (ht : t.IsParsed) (hq : IsUnquoted kind t) (hc : IsCentered t) (children : Forest α)
    (around : Neighbours) (inner : Forest Unit) :
    ∀ e ∈ (readResult width kind t children around inner).elements,
      Component.named? e.tag.name = none ∧ IsCenteredBy kind e.tag := by
  by_cases hmarker : kind = .marker
  · subst hmarker
    exact List.forall_mem_singleton.mpr ⟨rfl, nofun, nofun⟩
  have hspliced : "class" ∈ spliced kind := by
    cases kind <;> first | decide | exact absurd rfl hk | exact absurd rfl hmarker
  have hclass : "float-center" ∈ (escaped t).classes := by
    rw [classes_escaped ht.isRead (hq _ hspliced)]
    exact List.contains_iff_mem.mp hc.floats
  have hframe := topAll_frame (gives_align_escaped ht hc.align) hclass width hk hmarker children
    around
  have hresult : readResult width kind t children around inner =
      ((frame width kind (escaped t) children around).mapValues
        Format.standard.protect).forest inner := by
    cases kind <;> first | rfl | exact absurd rfl hmarker
  rw [hresult]
  intro e he
  obtain ⟨name, attributes, hname, hpasses, htag⟩ :=
    (hframe.mapValues fun _ h => h.protect).elements inner e he
  rw [htag]
  exact ⟨hname, hpasses.isCenteredBy name⟩

end Expansion

end Mailgrid
