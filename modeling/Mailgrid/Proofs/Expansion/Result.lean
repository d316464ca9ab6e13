import Mailgrid.Proofs.Expansion.Centering
import Mailgrid.Proofs.Expansion.Marker

/-!
# Results of expansions

What the markup of a component reads as, as a forest around what is inside it,
and what the siblings of the component see of that: it starts and ends with
elements that are no components, and it counts as a column if the component
does.
-/

namespace Mailgrid

open Markup (AttributeValue Element Forest Tag bareStyle wordsOf)

/-- The component with a standard tag. -/
def Component.named? (name : String) : Option Component :=
  (Component.all.map fun c => (c.standardTag, c)).lookup name

theorem Component.named?_eq_some {name : String} {kind : Component} :
    Component.named? name = some kind ↔ name = kind.standardTag := by
  refine ⟨fun h => ?_, ?_⟩
  · obtain ⟨_, _, hsplit, -⟩ := List.lookup_eq_some_iff.mp h
    have hmem : (name, kind) ∈ Component.all.map fun c => (c.standardTag, c) := by simp [hsplit]
    obtain ⟨c, -, hc⟩ := List.mem_map.mp hmem
    cases hc
    rfl
  · rintro rfl
    cases kind <;> rfl

theorem Component.isEmpty_of_named? {name : String} {kind : Component}
    (h : named? name = some kind) : name.isEmpty = false := by
  rw [Component.named?_eq_some.mp h]
  cases kind <;> rfl

/-- Is what is inside a component kept? -/
def Component.keepsContent : Component → Bool
  | .line | .spacer | .marker => false
  | _ => true

/-- Are no elements of a template components? -/
def Template.isFinal (t : Template) : Bool :=
  t.names.all fun name => (Component.named? name).isNone

/-- Are the outermost nodes all elements, with such tags? -/
def Markup.Forest.topAll (P : Tag → Bool) : Forest α → Bool
  | .nil => true
  | .leaf .. => false
  | .element _ t _ next => P t && next.topAll P

namespace Expansion

/-- A column, or the cell that one was turned into. -/
def isColumnTag (t : Tag) : Bool :=
  isColumn (.standard 0) t

/-- How many of the outermost elements are columns. -/
def columnCount (f : Forest α) : Nat :=
  f.elements.countP fun e => isColumnTag e.tag

/-- The place of a column with so many columns before it. -/
def neighboursOf (before : Nat) (next : Forest α) : Neighbours :=
  ⟨before == 0, columnCount next == 0, before + columnCount next + 1⟩

/-- Does a button fill its row? -/
def isWide (t : Tag) : Bool :=
  t.hasClass "expand" || t.hasClass "expanded"

/-- A wide button around its centered content. -/
def wideButton (t : Tag) : Template :=
  table [("class", classText t ["button"])]
    (cell (table [] (cell inside)) ++ (nextLine ++ expander "td"))

/-- What an element of a kind becomes, around this content. -/
def resultOf (width : Int) (kind : Component) (t : Tag) (children : Forest α) (around : Neighbours)
    (inner : Forest Unit) : Forest Unit :=
  match kind with
  | .marker => markerForest
  | kind => (frame width kind t children around).forest inner

theorem resultOf_of_ne (width : Int) {kind : Component} (hk : kind ≠ .marker) (t : Tag)
    (children : Forest α) (around : Neighbours) (inner : Forest Unit) :
    resultOf width kind t children around inner =
      (frame width kind t children around).forest inner := by
  cases kind <;> first | rfl | exact absurd rfl hk

-- ---------------------------------------------------------------------------
-- Reading a result

theorem read_fill_marker (width : Int) (t : Tag) (children : Forest α) (around : Neighbours)
    (s : String) : Format.standard.read ((frame width .marker t children around).fill s).write =
      .ok markerForest := by
  have hfill : ((Template.raw marker).fill s).write = marker := by
    rw [Template.raw, Template.fill, if_neg (by decide)]
    simp [Template.fill, Template.write]
  rw [frame, hfill]
  exact read_marker

theorem read_resultOf (width : Int) (kind : Component) {t : Tag} (ht : t.Plain)
    {children : Forest α} (hc : children.Plain) (around : Neighbours) (parent : Option String) :
    ∃ new, Format.standard.read ((frame width kind t children around).fill
        (String.ofList (bareStyle.write parent children))).write = .ok new ∧
      new.bare = resultOf width kind t children around children.bare := by
  by_cases hk : kind = .marker
  · subst hk
    exact ⟨markerForest, read_fill_marker width t children around _, rfl⟩
  · obtain ⟨new, hr, hb⟩ := Template.read_fill (plain_frame width ht children around hk) hc parent
    exact ⟨new, hr, hb.trans (resultOf_of_ne width hk t children around children.bare).symm⟩

theorem plain_resultOf (width : Int) (kind : Component) {t : Tag} (ht : t.Plain)
    (children : Forest α) (around : Neighbours) {inner : Forest Unit} (hi : inner.Plain) :
    (resultOf width kind t children around inner).Plain := by
  by_cases hk : kind = .marker
  · subst hk
    exact ⟨by decide, nofun, ⟨by decide, nofun, ⟨plain_markerImage, fun _ => rfl, trivial, trivial⟩,
      trivial⟩, trivial⟩
  · rw [resultOf_of_ne width hk]
    exact Template.plain_forest (plain_frame width ht children around hk) hi

-- ---------------------------------------------------------------------------
-- The elements of a result

/-- What is generated holds no component, but for the center in a wide button. -/
theorem final_frame (width : Int) {kind : Component} {t : Tag}
    (hk : kind ≠ .marker) (hw : ¬(kind = .button ∧ isWide t = true)) (children : Forest α)
    (around : Neighbours) :
    (frame width kind t children around).isFinal = true ∧
      (frame width kind t children around).hasPlace = false ∧
      (frame width kind t children around).places = if kind.keepsContent then 1 else 0 := by
  cases kind with
  | marker => exact absurd rfl hk
  | spacer =>
    rw [frame]
    rcases spacer_cases (carriedTexts t) t with ⟨_, -, _, -, h⟩ | ⟨_, _, -, -, h⟩ <;> rw [h] <;>
      exact ⟨rfl, rfl, rfl⟩
  | button =>
    have hwide : (t.hasClass "expand" || t.hasClass "expanded") = false := by
      simpa [isWide] using hw
    simp only [frame, button, hwide, linked]
    cases t.filled? "href" <;> exact ⟨rfl, rfl, rfl⟩
  | columns =>
    rw [frame]
    cases hasExpander (.standard width) t children (evenSize width t around.total) <;>
      exact ⟨rfl, rfl, rfl⟩
  | _ => exact ⟨rfl, rfl, rfl⟩

theorem forall_resultOf (width : Int) {kind : Component} {t : Tag} {Q : Element Unit → Prop}
    (hfinal : ∀ e, Component.named? e.tag.name = none → Q e)
    (hwide : kind = .button ∧ isWide t = true → ∀ e, e.tag.name = "center" → Q e)
    (children : Forest α) (around : Neighbours) {inner : Forest Unit}
    (hi : ∀ e ∈ inner.descendants, Q e) :
    ∀ e ∈ (resultOf width kind t children around inner).descendants, Q e := by
  by_cases hk : kind = .marker
  · subst hk
    simp only [resultOf, markerForest, Forest.descendants, List.append_nil, List.forall_mem_cons]
    exact ⟨hfinal _ rfl, hfinal _ rfl, hfinal _ rfl, List.forall_mem_nil _⟩
  rw [resultOf_of_ne width hk]
  by_cases hw : kind = .button ∧ isWide t = true
  · obtain ⟨rfl, hw⟩ := hw
    have hnames : (frame width .button t children around).names.all (fun name =>
        (Component.named? name).isNone || name == "center") = true := by
      have h : (t.hasClass "expand" || t.hasClass "expanded") = true := hw
      simp only [frame, button, h, linked]
      cases t.filled? "href" <;> rfl
    refine Template.forall_forest (fun e he => ?_) hi
    have he := List.all_eq_true.mp hnames _ he
    simp only [Bool.or_eq_true, Option.isNone_iff_eq_none, beq_iff_eq] at he
    exact he.elim (hfinal e) (hwide ⟨rfl, hw⟩ e)
  · obtain ⟨hf, -, -⟩ := final_frame width hk hw children around
    refine Template.forall_forest (fun e he => hfinal e ?_) hi
    exact Option.isNone_iff_eq_none.mp (List.all_eq_true.mp hf _ he)

theorem outside_resultOf (width : Int) {kind : Component} (hk : kind ≠ .center) (t : Tag)
    (children : Forest α) (around : Neighbours) (inner : Forest Unit) :
    (resultOf width kind t children around inner).isNil = false ∧
      (resultOf width kind t children around inner).topAll
        (fun s => (Component.named? s.name).isNone) = true := by
  cases kind with
  | center => exact absurd rfl hk
  | spacer =>
    rw [resultOf_of_ne width (by decide), frame]
    rcases spacer_cases (carriedTexts t) t with ⟨_, -, _, -, h⟩ | ⟨_, _, -, -, h⟩ <;> rw [h] <;>
      exact ⟨rfl, rfl⟩
  | _ => exact ⟨rfl, rfl⟩

-- ---------------------------------------------------------------------------
-- Classes of generated elements

section
variable {b : List (String × String)}

theorem reverse_lookup_texts (hb : ∀ x ∈ b, x.1 ≠ "class") :
    (b.map fun (key, value) => (key, AttributeValue.text value)).reverse.lookup "class" = none := by
  rw [List.lookup_eq_none_iff]
  intro p hp
  obtain ⟨x, hx, rfl⟩ := List.mem_map.mp (List.mem_reverse.mp hp)
  simpa using (hb x hx).symm

theorem get?_class_tag (name : String) (a : List (String × String)) (c : String)
    (hb : ∀ x ∈ b, x.1 ≠ "class") :
    (Template.tag name (a ++ ("class", c) :: b)).get? "class" = some (.text c) := by
  rw [Tag.get?, Template.tag, Table.lookup_ofList, List.map_append, List.map_cons,
    List.reverse_append, List.reverse_cons, List.append_assoc, List.lookup_append,
    reverse_lookup_texts hb]
  rfl

theorem classes_tag (name : String) (a : List (String × String)) (c : String)
    (hb : ∀ x ∈ b, x.1 ≠ "class") :
    (Template.tag name (a ++ ("class", c) :: b)).classes = wordsOf c := by
  rw [Tag.classes, get?_class_tag name a c hb]
  rfl

theorem classes_tag_of_ne (name : String) (hb : ∀ x ∈ b, x.1 ≠ "class") :
    (Template.tag name b).classes = [] := by
  rw [Tag.classes, Tag.get?, Template.tag, Table.lookup_ofList, reverse_lookup_texts hb]

theorem ne_class_of_mem_carriedTexts {t : Tag} : ∀ x ∈ carriedTexts t, x.1 ≠ "class" := by
  intro x hx
  obtain ⟨⟨name, value⟩, hm, rfl⟩ := List.mem_map.mp hx
  rintro rfl
  have hconsumed : "class" ∈ consumed := by decide
  simp [hconsumed] at hm

theorem wordsOf_classText {t : Tag} (ht : t.Plain) (kinds : List String) :
    wordsOf (classText t kinds) = kinds.flatMap wordsOf ++ t.classes := by
  rw [classText, Markup.wordsOf_intercalate, List.flatMap_append, ht.classes.1]

end

theorem isColumnTag_of_ne {t : Tag} (h : t.name ≠ "th") : isColumnTag t = (t.name == "columns") := by
  simp [isColumnTag, isColumn, Rules.standard, h]

theorem columnCount_cell (attributes : List (String × String)) (content : Forest Unit) :
    columnCount (.element () (Template.tag "th" attributes) content .nil) =
      ((Template.tag "th" attributes).hasClass "columns").toNat := by
  have h : isColumnTag (Template.tag "th" attributes) =
      (Template.tag "th" attributes).hasClass "columns" := rfl
  rw [columnCount, Forest.elements, Forest.elements, List.countP_singleton, h]
  cases (Template.tag "th" attributes).hasClass "columns" <;> rfl

/-- What comes from a column counts as one, and nothing else does. -/
theorem columnCount_resultOf (width : Int) {kind : Component} (hk : kind ≠ .center) {t : Tag}
    (ht : t.Plain) (hn : t.name = kind.standardTag)
    (hitem : t.name = "item" → t.hasClass "columns" = false) (children : Forest α)
    (around : Neighbours) (inner : Forest Unit) :
    columnCount (resultOf width kind t children around inner) = (isColumnTag t).toNat := by
  have hth : t.name ≠ "th" := by
    rw [hn]
    cases kind <;> decide
  rw [isColumnTag_of_ne hth, hn]
  cases kind with
  | center => exact absurd rfl hk
  | spacer =>
    rw [resultOf_of_ne width (by decide), frame]
    rcases spacer_cases (carriedTexts t) t with ⟨_, -, _, -, h⟩ | ⟨_, _, -, -, h⟩ <;> rw [h] <;> rfl
  | menuItem =>
    have hclasses : (Template.tag "th" (carriedTexts t ++
        [("class", classText t ["menu-item"])])).classes = "menu-item" :: t.classes := by
      rw [classes_tag "th" (carriedTexts t) _ (List.forall_mem_nil _), wordsOf_classText ht]
      rfl
    refine (columnCount_cell _ _).trans ?_
    rw [Tag.hasClass, hclasses, List.contains_cons, ← Tag.hasClass, hitem hn]
    rfl
  | columns =>
    obtain ⟨classes, hmem, content, h⟩ : ∃ classes, "columns" ∈ classes ∧ ∃ content,
        resultOf width .columns t children around inner = .element () (Template.tag "th"
          (("class", " ".intercalate classes) :: carriedTexts t)) content .nil :=
      ⟨_, by simp [columnClasses], _, rfl⟩
    have hclass : "columns" ∈ (Template.tag "th"
        (("class", " ".intercalate classes) :: carriedTexts t)).classes := by
      have := classes_tag "th" [] (" ".intercalate classes) (ne_class_of_mem_carriedTexts (t := t))
      rw [List.nil_append, Markup.wordsOf_intercalate] at this
      rw [this]
      exact List.mem_flatMap.mpr ⟨_, hmem, by decide⟩
    rw [h, columnCount_cell, Tag.hasClass, List.contains_iff_mem.mpr hclass]
    rfl
  | _ => rfl

end Expansion

end Mailgrid
