import Mailgrid.Proofs.Expansion.Result
import Mailgrid.Proofs.Unfolding.Step

/-!
# Values in expansions

The attributes that a component passes on come with their quotes escaped; the
values that its template sets itself come as they are. `read_ofPlace`: as long
as the latter have no quotes, the markup that is generated reads as the frame of
the component, each value in its attribute, whatever else the values hold.
-/

namespace Mailgrid

open Markup (AttributeValue Element Forest Place Tag bareStyle isParsed_of_isPlainName
  isReadName_of_isPlainName)

namespace Expansion

/-- The attributes whose values the template of a kind sets as they are. -/
def spliced : Component → List String
  | .button | .menuItem => ["class", "href", "target"]
  | .blockGrid => ["class", "up"]
  | .spacer => ["class", "size", "size-sm", "size-lg"]
  | .columns => ["class", "small", "large"]
  | .marker | .center => []
  | .line | .row | .container | .menu | .callout | .wrapper => ["class"]

/-- The tag with the quotes in its values escaped. -/
def escaped (t : Tag) : Tag :=
  { t with attributes := t.attributes.map fun a => (a.1, .text (quoteEscaped a.2.shown)) }

/-- What the markup for a component is to read as: the frame of its tag with escaped quotes, around
what the inside reads as. -/
def readResult (width : Int) (kind : Component) (t : Tag) (children : Forest α)
    (around : Neighbours) (inner : Forest Unit) : Forest Unit :=
  match kind with
  | .marker => markerForest
  | kind => ((frame width kind (escaped t) children around).mapValues
      Format.standard.protect).forest inner

-- ---------------------------------------------------------------------------
-- Escaped quotes

theorem not_mem_quoteEscaped (s : String) : '"' ∉ (quoteEscaped s).toList := by
  rw [quoteEscaped, String.toList_ofList]
  intro hm
  obtain ⟨c, -, hc⟩ := List.mem_flatMap.mp hm
  split at hc
  · exact absurd hc (by decide)
  · rename_i hne
    exact hne (List.mem_singleton.mp hc).symm

theorem quoteEscaped_quoteEscaped (s : String) : quoteEscaped (quoteEscaped s) = quoteEscaped s :=
  quoteEscaped_of_not_mem (not_mem_quoteEscaped s)

theorem quoteEscaped_eq_iff {s word : String} (hq : '"' ∉ word.toList) (ha : '&' ∉ word.toList) :
    quoteEscaped s = word ↔ s = word := by
  constructor
  · intro h
    have hquote : '"' ∉ s.toList := by
      intro hm
      rw [← h, quoteEscaped, String.toList_ofList] at ha
      exact ha (List.mem_flatMap.mpr ⟨'"', hm, by decide⟩)
    exact (quoteEscaped_of_not_mem hquote).symm.trans h
  · rintro rfl
    exact quoteEscaped_of_not_mem hq

section
variable {t : Tag}

theorem get?_escaped (t : Tag) (name : String) :
    (escaped t).get? name = (t.get? name).map fun value => .text (quoteEscaped value.shown) := by
  unfold Tag.get? escaped
  induction t.attributes with
  | nil => rfl
  | cons a more ih =>
    obtain ⟨key, value⟩ := a
    simp only [List.map_cons, List.lookup_cons, ih]
    split <;> rfl

theorem exists_text_of_get? (h : t.IsRead) {name : String} {value : AttributeValue}
    (hv : t.get? name = some value) : ∃ s, value = .text s := by
  obtain ⟨_, _, hsplit, -⟩ := List.lookup_eq_some_iff.mp hv
  exact (h.attributes (name, value) (by simp [hsplit])).1

theorem get?_escaped_of_not_mem (h : t.IsRead) {name : String}
    (hq : ∀ s, t.get? name = some (.text s) → '"' ∉ s.toList) :
    (escaped t).get? name = t.get? name := by
  rw [get?_escaped]
  cases hv : t.get? name with
  | none => rfl
  | some value =>
    obtain ⟨s, rfl⟩ := exists_text_of_get? h hv
    simp only [Option.map_some, AttributeValue.shown, quoteEscaped_of_not_mem (hq s hv)]

theorem classes_escaped (h : t.IsRead)
    (hq : ∀ s, t.get? "class" = some (.text s) → '"' ∉ s.toList) :
    (escaped t).classes = t.classes := by
  rw [Tag.classes, Tag.classes, get?_escaped_of_not_mem h hq]

theorem isRead_escaped (h : t.IsRead) : (escaped t).IsRead := by
  refine ⟨fun a ha => ?_, ?_⟩
  · obtain ⟨b, hb, rfl⟩ := List.mem_map.mp ha
    exact ⟨⟨_, rfl⟩, (h.attributes b hb).2⟩
  · have hnames : (escaped t).attributes.map (·.1) = t.attributes.map (·.1) := by
      simp [escaped, Function.comp_def]
    rw [hnames]
    exact h.nodup

theorem carriedTexts_escaped (t : Tag) : carriedTexts (escaped t) =
    (carriedTexts t).map fun a => (a.1, quoteEscaped a.2) := by
  simp only [carriedTexts, escaped, List.filter_map, List.map_map]
  rfl

theorem carried_of_isRead (h : t.IsRead) : carried t = .ok (carriedTexts (escaped t)) := by
  rw [carriedTexts_escaped, carriedTexts, List.map_map]
  refine mapM_eq_ok fun a ha => ?_
  obtain ⟨name, value⟩ := a
  obtain ⟨⟨s, rfl⟩, -⟩ := h.attributes _ (List.mem_of_mem_filter ha)
  rfl

theorem carried_escaped (h : t.IsRead) :
    carried (escaped t) = .ok (carriedTexts (escaped t)) := by
  rw [carried_of_isRead (isRead_escaped h), carriedTexts_escaped (escaped t),
    carriedTexts_escaped t, List.map_map]
  simp only [Function.comp_def, quoteEscaped_quoteEscaped]

theorem wantsExpander_escaped (t : Tag) : wantsExpander (escaped t) = wantsExpander t := by
  unfold wantsExpander
  rw [get?_escaped]
  cases t.get? "no-expander" with
  | none => rfl
  | some value =>
    have hword := @quoteEscaped_eq_iff value.shown "false" (by decide) (by decide)
    simp only [Option.map_some]
    exact Bool.eq_iff_iff.mpr (by simpa [AttributeValue.shown] using hword)

-- ---------------------------------------------------------------------------
-- Templates of escaped tags

/-- The values that the template of a kind sets as they are have no quotes. -/
def IsUnquoted (kind : Component) (t : Tag) : Prop :=
  ∀ name ∈ spliced kind, ∀ s, t.get? name = some (.text s) → '"' ∉ s.toList

theorem filled?_escaped {kind : Component} (ht : t.IsRead) (hq : IsUnquoted kind t) {name : String}
    (hmem : name ∈ spliced kind) : (escaped t).filled? name = t.filled? name := by
  unfold Tag.filled?
  rw [get?_escaped_of_not_mem ht (hq _ hmem)]

/-- A template does not see the other quotes of its tag, but for those that it escapes itself. -/
theorem template_escaped (width : Int) (format : Format) {kind : Component} (ht : t.IsRead)
    (hq : IsUnquoted kind t) (children : Forest Nat) (before after : List (Element Nat)) :
    template (.standard width) format (some kind) (escaped t) children before after =
      template (.standard width) format (some kind) t children before after := by
  have hcarried : carried (escaped t) = carried t :=
    (carried_escaped ht).trans (carried_of_isRead ht).symm
  have hname : (escaped t).name = t.name := rfl
  have hclasses (hmem : "class" ∈ spliced kind) : (escaped t).classes = t.classes :=
    classes_escaped ht (hq _ hmem)
  have hfilled (name : String) (hmem : name ∈ spliced kind) :
      (escaped t).filled? name = t.filled? name := filled?_escaped ht hq hmem
  have hclass {name : String} (hmem : "class" ∈ spliced kind) :
      (escaped t).hasClass name = t.hasClass name := by
    unfold Tag.hasClass
    rw [hclasses hmem]
  cases kind with
  | marker => rfl
  | center => rfl
  | line => simp only [template, line, classText, hclasses (by decide)]
  | row => simp only [template, row, classText, hname, hcarried, hclasses (by decide)]
  | container => simp only [template, container, classText, hname, hcarried, hclasses (by decide)]
  | menu => simp only [template, menu, classText, hname, hcarried, hclasses (by decide)]
  | callout => simp only [template, callout, classText, hname, hcarried, hclasses (by decide)]
  | wrapper => simp only [template, wrapper, classText, hname, hcarried, hclasses (by decide)]
  | blockGrid =>
    simp only [template, blockGrid, classText, hname, hclasses (by decide),
      hfilled "up" (by decide)]
  | button =>
    simp only [template, button, linked, target, classText, hname, hcarried, hclasses (by decide),
      hclass (by decide), hfilled "href" (by decide), hfilled "target" (by decide)]
  | menuItem =>
    simp only [template, menuItem, target, classText, hname, hcarried, hclasses (by decide),
      hfilled "href" (by decide), hfilled "target" (by decide)]
  | spacer =>
    simp only [template, spacer, classText, hcarried, hclasses (by decide),
      hfilled "size" (by decide), hfilled "size-sm" (by decide), hfilled "size-lg" (by decide)]
  | columns =>
    simp only [template, columnClasses, largeSize, hasExpander, hname, hcarried,
      hclasses (by decide), hfilled "small" (by decide), hfilled "large" (by decide),
      wantsExpander_escaped]

theorem supplies_unquoted {P : String × String → Prop}
    (hpair : ∀ {name value}, Markup.isPlainName name = true → '"' ∉ value.toList → P (name, value))
    (hcarried : ∀ a ∈ t.attributes, ∀ value : String, '"' ∉ value.toList → P (a.1, value)) :
    Supplies P (fun s => '"' ∉ s.toList) (escaped t) where
  pair := hpair
  literal h hm := (h _ hm).1 rfl
  append ha hb hm := by
    rw [String.toList_append, List.mem_append] at hm
    exact hm.elim ha hb
  carried a ha := by
    rw [carriedTexts_escaped] at ha
    obtain ⟨b, hb, rfl⟩ := List.mem_map.mp ha
    obtain ⟨c, hc, rfl⟩ := List.mem_map.mp hb
    exact hcarried c (List.mem_of_mem_filter hc) _ (not_mem_quoteEscaped _)
  classes c hc hm := by
    unfold Tag.classes at hc
    rw [get?_escaped] at hc
    cases hv : t.get? "class" with
    | none =>
      rw [hv] at hc
      cases hc
    | some value =>
      rw [hv] at hc
      obtain ⟨word, hw, rfl⟩ := List.mem_map.mp hc
      rw [String.toList_ofList] at hm
      exact not_mem_quoteEscaped _ ((Text.of_mem_words hw).2 _ hm).2
  filled hv hm := by
    unfold Tag.filled? at hv
    rw [get?_escaped] at hv
    split at hv
    · rename_i value hvalue
      obtain ⟨found, -, rfl⟩ := Option.map_eq_some_iff.mp hvalue
      split at hv
      · cases hv
      · cases hv
        exact not_mem_quoteEscaped _ hm
    · cases hv

theorem supplies_escaped (h : t.IsParsed) :
    Supplies Template.IsSealed (fun s => '"' ∉ s.toList) (escaped t) :=
  supplies_unquoted (fun hn hv => ⟨isReadName_of_isPlainName hn, hv⟩)
    fun a ha _ hv => ⟨(h.attributes a ha).2, hv⟩

/-- The markup for a component reads as its frame, around what is inside, if the values that this
sets as they are have no quotes. -/
theorem read_template (width : Int) {kind : Component} (hk : kind ≠ .center) (ht : t.IsParsed)
    (hq : IsUnquoted kind t) {children : Forest Nat} {inner : Forest Unit}
    (hchildren : children.ReadsAs inner)
    (before after : List (Element Nat)) : ∃ markup new,
      template (.standard width) Format.standard (some kind) t children before after = .ok markup ∧
      Format.standard.read markup.write = .ok new ∧
      new.bare =
        readResult width kind t children (neighbours (.standard width) before after) inner := by
  have htemplate := (template_escaped width _ ht.isRead hq children before after).symm.trans
    (template_eq_fill width kind (carried_escaped ht.isRead) children before after)
  by_cases hmarker : kind = .marker
  · subst hmarker
    exact ⟨_, markerForest, htemplate, read_fill_marker width (escaped t) children _ _, rfl⟩
  · have hframe := (supplies_escaped ht).frame width children
      (neighbours (.standard width) before after) hmarker
    obtain ⟨new, hread, hnew⟩ := hframe.read hchildren (some t.name)
    refine ⟨_, new, htemplate, hread, hnew.trans ?_⟩
    cases kind <;> first | rfl | exact absurd rfl hmarker

/-- The expansion of a component whose spliced values have no quotes reads as its template, with
every value in its own attribute. -/
theorem read_ofPlace (width : Int) {kind : Component} {place : Place Nat} {t : Tag}
    {children : Forest Nat} {inner : Forest Unit} (hnode : place.node = .element t children)
    (hname : t.name ≠ "") (ht : t.IsParsed) (hq : IsUnquoted kind t)
    (hchildren : children.ReadsAs inner) :
    ∃ e, ofPlace (.standard width) Format.standard (some kind) place = .ok e ∧
      match e with
      | .inPlace _ => kind = .center
      | .markup text => ∃ new, Format.standard.read text = .ok new ∧
          new.bare = readResult width kind t children
            (neighbours (.standard width) place.before place.after) inner := by
  have hempty : t.name.isEmpty = false := by simpa using hname
  by_cases hcenter : kind = .center
  · subst hcenter
    refine ⟨.inPlace (center (.standard width) children), ?_, rfl⟩
    simp only [ofPlace, hnode, hempty]
    rfl
  · obtain ⟨markup, new, htemplate, hread, hnew⟩ :=
      read_template width hcenter ht hq hchildren place.before place.after
    exact ⟨_, Unfolder.ofPlace_of_template hnode hempty hcenter htemplate, new, hread, hnew⟩

/-- A button with tags and quotes in its values. -/
def quotedButton : Tag :=
  ⟨"button", [("class", .text "<b>"), ("href", .text "?a='b'>"), ("title", .text "a\"b\"")], false⟩

def buttonLabel : Forest Nat :=
  .leaf 1 (.text .plain) "Go" .nil

def quotedPlace : Place Nat :=
  ⟨0, .element quotedButton buttonLabel, [], []⟩

/-- The ampersands of escaped quotes are read as their placeholder. -/
def quotedLink : Tag :=
  ⟨"a", [("title", .text "a\ue000quot;b\ue000quot;"), ("href", .text "?a='b'>")], false⟩

theorem read_ofPlace_quotedButton :
    quotedButton.name ≠ "" ∧ quotedButton.IsParsed ∧ IsUnquoted .button quotedButton ∧
      buttonLabel.ReadsAs buttonLabel.bare ∧
      ∃ e, ofPlace (.standard 12) Format.standard (some .button) quotedPlace = .ok e ∧
        match e with
        | .inPlace _ => Component.button = .center
        | .markup text => ∃ new, Format.standard.read text = .ok new ∧
            new.bare = (table [("class", "button <b>")] (cell (table [] (cell inside)))).forest
              (.element () quotedLink buttonLabel.bare .nil) := by
  have hparsed : quotedButton.IsParsed := by
    refine isParsed_of_isPlainName ?_ (by decide)
    refine List.forall_mem_cons.mpr ⟨⟨⟨_, rfl⟩, by decide⟩, ?_⟩
    refine List.forall_mem_cons.mpr ⟨⟨⟨_, rfl⟩, by decide⟩, ?_⟩
    exact List.forall_mem_singleton.mpr ⟨⟨_, rfl⟩, by decide⟩
  have hunquoted : IsUnquoted .button quotedButton := by
    refine List.forall_mem_cons.mpr ⟨?_, List.forall_mem_cons.mpr ⟨?_, ?_⟩⟩
    · rintro s h; cases h; decide
    · rintro s h; cases h; decide
    · exact List.forall_mem_singleton.mpr nofun
  have hlabel : buttonLabel.ReadsAs buttonLabel.bare :=
    Forest.Plain.readsAs ⟨by decide, rfl, trivial⟩
  have hresult : readResult 12 .button quotedButton buttonLabel ⟨true, true, 1⟩ buttonLabel.bare =
      (table [("class", "button <b>")] (cell (table [] (cell inside)))).forest
        (.element () quotedLink buttonLabel.bare .nil) := by
    decide +kernel
  refine ⟨by decide, hparsed, hunquoted, hlabel, ?_⟩
  have hnode : quotedPlace.node = .element quotedButton buttonLabel := rfl
  obtain ⟨e, he, hread⟩ := read_ofPlace 12 hnode (by decide) hparsed hunquoted hlabel
  exact ⟨e, he, hresult ▸ hread⟩

/-- A row whose class ends its attribute. -/
def brokenRow : Tag :=
  ⟨"row", [("class", .text "a\" id=\"b")], false⟩

def brokenPlace : Place Nat :=
  ⟨0, .element brokenRow .nil, [], []⟩

theorem not_read_ofPlace : ¬ ∀ (width : Int) (kind : Component) (place : Place Nat) (t : Tag)
    (children : Forest Nat) (inner : Forest Unit), place.node = .element t children → t.name ≠ "" →
    t.IsParsed → children.ReadsAs inner →
      ∃ e, ofPlace (.standard width) Format.standard (some kind) place = .ok e ∧
        match e with
        | .inPlace _ => kind = .center
        | .markup text => ∃ new, Format.standard.read text = .ok new ∧
            new.bare = readResult width kind t children
              (neighbours (.standard width) place.before place.after) inner := by
  intro h
  have hparsed : brokenRow.IsParsed :=
    isParsed_of_isPlainName (List.forall_mem_singleton.mpr ⟨⟨_, rfl⟩, by decide⟩) (by decide)
  have hnode : brokenPlace.node = .element brokenRow .nil := rfl
  obtain ⟨e, he, hresult⟩ := h 12 .row brokenPlace brokenRow .nil _ hnode (by decide) hparsed
    (Forest.Plain.readsAs trivial)
  -- the same markup is written for a table with two attributes
  have htemplate : template (.standard 12) Format.standard (some .row) brokenRow (.nil : Forest Nat)
      [] [] = .ok (row [] brokenRow (.raw "")) := rfl
  have htext : (row [] brokenRow (.raw "")).write = ((table [("class", "row a"), ("id", "b")]
      inside).fill (String.ofList (bareStyle.write none (.nil : Forest Nat)))).write := by
    decide +kernel
  have hwritten := Unfolder.ofPlace_of_template hnode rfl (by decide) htemplate
  rw [htext] at hwritten
  have hplain : (table [("class", "row a"), ("id", "b")] inside).Plain := by
    refine Template.plain_iff.mpr (framed_table ?_ framed_inside)
    decide
  cases he.symm.trans hwritten
  obtain ⟨new, hread, hnew⟩ := hresult
  have hnil : (.nil : Forest Nat).Plain := trivial
  obtain ⟨new', hread', hnew'⟩ := Template.read_fill hplain hnil none
  cases hread.symm.trans hread'
  exact absurd (hnew.symm.trans hnew') (by decide +kernel)

end

end Expansion

end Mailgrid
