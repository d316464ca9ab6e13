import Mailgrid.Proofs.Expansion.Values
import Mailgrid.Proofs.Template.Opening

/-!
# Attributes that are handed on

What a component carries is handed on to the element that its template opens
first, for a button to its link and for a spacer to every table. Two kinds have a
template of their own class alone and hand nothing on. `attributes_handed_on`:
so it is in what the generated markup reads as, whatever is inside the component.
-/

namespace Mailgrid

open Markup (AttributeValue Element Forest Grammar Growth Place Tag isParsed_of_isPlainName)

namespace Expansion

/-- Does the template of a kind hand attributes on? -/
def handsOn : Component → Bool
  | .line | .blockGrid | .marker | .center => false
  | _ => true

/-- Attributes that the template of a kind sets besides those that it uses up. -/
def ownNames : Component → List String
  | .container | .wrapper => ["align"]
  | _ => []

/-- Is an attribute of this name neither used up nor set by the template itself? -/
def isPassed (kind : Component) (name : String) : Bool :=
  !consumed.contains name && !(ownNames kind).contains name

/-- The elements that take the attributes of a component: the link of a button, each table of a
spacer, and otherwise the first element. -/
def bearers (kind : Component) (f : Forest α) : List (Element α) :=
  match kind with
  | .button => (f.descendants.find? fun e => e.tag.name == "a").toList
  | .spacer => f.elements
  | _ => f.elements.head?.toList

-- ---------------------------------------------------------------------------
-- Attributes of bearers

/-- The attributes that a component of this kind and tag gives to a bearer. -/
structure Bears (kind : Component) (t : Tag) (attributes : List (String × String)) : Prop where
  carried : handsOn kind = true → ∀ a ∈ carriedTexts t, a ∈ attributes
  others : ∀ a ∈ attributes, isPassed kind a.1 = true →
    handsOn kind = true ∧ a ∈ carriedTexts t

theorem lookup_of_forall {l : List (String × AttributeValue)} {key : String}
    {value : AttributeValue} (hmem : (key, value) ∈ l) (hall : ∀ a ∈ l, a.1 = key → a.2 = value) :
    l.lookup key = some value := by
  induction l with
  | nil => cases hmem
  | cons a more ih =>
    obtain ⟨ha, hmore⟩ := List.forall_mem_cons.mp hall
    rw [List.lookup_cons]
    split
    · rename_i hk
      rw [ha (beq_iff_eq.mp hk).symm]
    · rename_i hk
      rcases List.mem_cons.mp hmem with rfl | hmem
      · simp at hk
      · exact ih hmem hmore

variable {sign : Char} {t : Tag}

theorem get?_tagRead (sign : Char) (name : String) (attributes : List (String × String))
    (key : String) : (Template.tagRead sign (name, attributes)).get? key =
      (attributes.map fun a => (a.1, AttributeValue.text (Format.valueRead sign a.2))).reverse.lookup
        key := by
  unfold Tag.get? Template.tagRead Template.tag
  rw [Table.lookup_ofList, List.map_map]
  rfl

theorem get?_tagRead_of_forall {name key value : String} {attributes : List (String × String)}
    (hmem : (key, value) ∈ attributes) (hall : ∀ a ∈ attributes, a.1 = key → a.2 = value) :
    (Template.tagRead sign (name, attributes)).get? key =
      some (.text (Format.valueRead sign value)) := by
  rw [get?_tagRead]
  refine lookup_of_forall (List.mem_reverse.mpr (List.mem_map.mpr ⟨_, hmem, rfl⟩)) ?_
  intro a ha hkey
  obtain ⟨b, hb, rfl⟩ := List.mem_map.mp (List.mem_reverse.mp ha)
  rw [hall b hb hkey]

theorem get?_tagRead_of_not_mem {name key : String} {attributes : List (String × String)}
    (h : ∀ a ∈ attributes, a.1 ≠ key) :
    (Template.tagRead sign (name, attributes)).get? key = none := by
  rw [get?_tagRead, List.lookup_eq_none_iff]
  intro a ha
  obtain ⟨b, hb, rfl⟩ := List.mem_map.mp (List.mem_reverse.mp ha)
  simpa using (h b hb).symm

theorem eq_of_mem_carriedTexts (ht : t.IsRead) {a : String × AttributeValue}
    (ha : a ∈ t.attributes) : ∀ b ∈ carriedTexts t, b.1 = a.1 → b.2 = a.2.shown := by
  intro b hb hname
  obtain ⟨c, hc, rfl⟩ := List.mem_map.mp hb
  have hsame : c = a := by
    refine List.inj_on_of_nodup_map ht.nodup (List.mem_of_mem_filter hc) ha ?_
    exact hname
  rw [hsame]

theorem mem_carriedTexts {kind : Component} {a : String × AttributeValue} (ha : a ∈ t.attributes)
    (hpassed : isPassed kind a.1 = true) : (a.1, a.2.shown) ∈ carriedTexts t := by
  simp only [isPassed, Bool.and_eq_true] at hpassed
  exact List.mem_map.mpr ⟨a, List.mem_filter.mpr ⟨ha, hpassed.1⟩, rfl⟩

/-- What is passed is read with its quotes escaped, from a bearer of a kind that hands it on. -/
theorem Bears.get? {kind : Component} {name : String} {attributes : List (String × String)}
    (h : Bears kind (escaped t) attributes) (ht : t.IsRead) {a : String × AttributeValue}
    (ha : a ∈ t.attributes) (hpassed : isPassed kind a.1 = true) :
    (Template.tagRead sign (name, attributes)).get? a.1 = if handsOn kind
      then some (.text (Format.valueRead sign (quoteEscaped a.2.shown))) else none := by
  have hescaped : (a.1, AttributeValue.text (quoteEscaped a.2.shown)) ∈ (escaped t).attributes :=
    List.mem_map.mpr ⟨a, ha, rfl⟩
  cases hk : handsOn kind with
  | true =>
    rw [if_pos rfl]
    refine get?_tagRead_of_forall (h.carried hk _ (mem_carriedTexts hescaped hpassed)) ?_
    intro b hb hname
    exact eq_of_mem_carriedTexts (isRead_escaped ht) hescaped b
      (h.others b hb (hname ▸ hpassed)).2 hname
  | false =>
    rw [if_neg Bool.false_ne_true]
    refine get?_tagRead_of_not_mem fun b hb hname => ?_
    have hhands := (h.others b hb (hname ▸ hpassed)).1
    exact Bool.false_ne_true (hk.symm.trans hhands)

-- ---------------------------------------------------------------------------
-- Bearers in templates

section
variable {kind : Component} {own : List (String × String)}

theorem bears_none (hk : handsOn kind = false)
    (hown : ∀ a ∈ own, isPassed kind a.1 = false) : Bears kind t own :=
  ⟨fun hhands => absurd (hk.symm.trans hhands) Bool.false_ne_true,
    fun a ha hpassed => absurd ((hown a ha).symm.trans hpassed) Bool.false_ne_true⟩

theorem bears_behind (hk : handsOn kind = true) (hown : ∀ a ∈ own, isPassed kind a.1 = false) :
    Bears kind t (carriedTexts t ++ own) := by
  refine ⟨fun _ a ha => List.mem_append_left own ha, fun a ha hpassed => ⟨hk, ?_⟩⟩
  rcases List.mem_append.mp ha with ha | ha
  · exact ha
  · exact absurd ((hown a ha).symm.trans hpassed) Bool.false_ne_true

theorem bears_before {a : String × String} (hk : handsOn kind = true)
    (hown : isPassed kind a.1 = false) : Bears kind t (a :: carriedTexts t) := by
  refine ⟨fun _ b hb => List.mem_cons_of_mem a hb, fun b hb hpassed => ⟨hk, ?_⟩⟩
  rcases List.mem_cons.mp hb with rfl | hb
  · exact absurd (hown.symm.trans hpassed) Bool.false_ne_true
  · exact hb

end

theorem isPassed_target {kind : Component} : ∀ a ∈ target t, isPassed kind a.1 = false := by
  unfold target
  split
  · exact List.forall_mem_singleton.mpr (rfl)
  · exact nofun

theorem exists_opening_first (width : Int) {kind : Component} (hbutton : kind ≠ .button)
    (hspacer : kind ≠ .spacer) (hmarker : kind ≠ .marker) (hcenter : kind ≠ .center) (t : Tag)
    (children : Forest α) (around : Neighbours) : ∃ name attributes inner,
      (frame width kind t children around).opening = (name, attributes) :: inner ∧
        Bears kind t attributes := by
  have hclass (kind : Component) (value : String) :
      ∀ a ∈ [("class", value)], isPassed kind a.1 = false :=
    List.forall_mem_singleton.mpr (rfl)
  cases kind with
  | button => exact absurd rfl hbutton
  | spacer => exact absurd rfl hspacer
  | marker => exact absurd rfl hmarker
  | center => exact absurd rfl hcenter
  | line => exact ⟨_, _, _, rfl, bears_none rfl (hclass _ _)⟩
  | blockGrid =>
    rw [frame, blockGrid_eq]
    exact ⟨_, _, _, rfl, bears_none rfl (hclass _ _)⟩
  | row => exact ⟨_, _, _, rfl, bears_behind rfl (hclass _ _)⟩
  | menu => exact ⟨_, _, _, rfl, bears_behind rfl (hclass _ _)⟩
  | menuItem => exact ⟨_, _, _, rfl, bears_behind rfl (hclass _ _)⟩
  | callout => exact ⟨_, _, _, rfl, bears_behind rfl (hclass _ _)⟩
  | container =>
    refine ⟨_, _, _, rfl, bears_behind rfl ?_⟩
    exact List.forall_mem_cons.mpr ⟨by decide, hclass _ _⟩
  | wrapper =>
    refine ⟨_, _, _, rfl, bears_behind rfl ?_⟩
    exact List.forall_mem_cons.mpr ⟨hclass .wrapper _ _ List.mem_cons_self,
      List.forall_mem_singleton.mpr (by decide)⟩
  | columns => exact ⟨_, _, _, rfl, bears_before rfl (rfl)⟩

theorem exists_opening_link (width : Int) {t : Tag} {href : String}
    (hhref : t.filled? "href" = some href) (children : Forest α) (around : Neighbours) :
    ∃ outer, (∀ start ∈ outer, start.1 ≠ "a") ∧
      (frame width .button t children around).opening =
        outer ++ [("a", carriedTexts t ++ ("href", href) :: target t)] := by
  have hlink : linked (if (t.filled? "href").isSome then carriedTexts t else []) t inside =
      .node "a" (carriedTexts t ++ ("href", href) :: target t) inside := by
    simp [linked, hhref]
  rw [frame, button, hlink]
  cases t.hasClass "expand" || t.hasClass "expanded" with
  | false =>
    refine ⟨[("table", [("class", classText t ["button"])]), ("tbody", []), ("tr", []), ("td", []),
      ("table", []), ("tbody", []), ("tr", []), ("td", [])], ?_, rfl⟩
    simp
  | true =>
    refine ⟨[("table", [("class", classText t ["button"])]), ("tbody", []), ("tr", []), ("td", []),
      ("table", []), ("tbody", []), ("tr", []), ("td", []), ("center", [])], ?_, rfl⟩
    simp

-- ---------------------------------------------------------------------------
-- Bearers in what is read

theorem exists_adds_spacerTable (hs : Template.IsSign sign) {attributes : List (String × String)}
    {classes size : String}
    (h : (spacerTable attributes classes size).Framed (Template.IsShut sign)) {g : Growth}
    (hg : g.Ready) : ∃ children,
      g.Adds (Format.signed sign (spacerTable attributes classes size).write.toList)
        (.element () (Template.tagRead sign ("table", attributes ++ [("class", classes)])) children
          .nil) := by
  have hopen := Template.isOpener_of_framed h
  obtain ⟨htable, hopen⟩ := List.forall_mem_cons.mp hopen
  obtain ⟨hbody, hopen⟩ := List.forall_mem_cons.mp hopen
  obtain ⟨hrow, hopen⟩ := List.forall_mem_cons.mp hopen
  obtain ⟨hcell, -⟩ := List.forall_mem_cons.mp hopen
  have hcells (g : Growth) (hg : g.Ready) (_ : g.pending = none) :=
    Template.exists_adds_node hs hcell (Template.exists_adds_nbsp hs) hg
  have hrows (g : Growth) (hg : g.Ready) (_ : g.pending = none) :=
    Template.exists_adds_node hs hrow (fun g hg hp => have ⟨_, h⟩ := hcells g hg hp; ⟨_, h⟩) hg
  have hbodies (g : Growth) (hg : g.Ready) (_ : g.pending = none) :=
    Template.exists_adds_node hs hbody (fun g hg hp => have ⟨_, h⟩ := hrows g hg hp; ⟨_, h⟩) hg
  exact Template.exists_adds_node hs htable
    (fun g hg hp => have ⟨_, h⟩ := hbodies g hg hp; ⟨_, h⟩) hg

theorem elements_spacer (hs : Template.IsSign sign)
    (h : (spacer (carriedTexts t) t).Framed (Template.IsShut sign)) {f : Forest Unit}
    (hf : Forest.parse Grammar.standard
      (Format.signed sign (spacer (carriedTexts t) t).write.toList) = .ok f) :
    f.elements ≠ [] ∧ ∀ e ∈ f.elements, ∃ classes,
      e.tag = Template.tagRead sign ("table", carriedTexts t ++ [("class", classes)]) := by
  have hempty : Growth.empty.Ready := ⟨rfl, nofun⟩
  rcases spacer_cases (carriedTexts t) t with
    ⟨shown, -, size, -, heq⟩ | ⟨size, size', -, -, heq⟩
  · rw [heq] at h hf
    obtain ⟨children, hadds⟩ := exists_adds_spacerTable hs h hempty
    rw [Growth.parse_of_adds hadds hf]
    exact ⟨List.cons_ne_nil _ _, List.forall_mem_singleton.mpr ⟨_, rfl⟩⟩
  · rw [heq] at h hf
    obtain ⟨hname, hattributes, -, hcontent, hsecond⟩ := h
    rw [Template.write_append, String.toList_append, Format.signed_append] at hf
    obtain ⟨children, hfirst⟩ := exists_adds_spacerTable hs
      ⟨hname, hattributes, rfl, hcontent, trivial⟩ hempty
    obtain ⟨more, ⟨children', rfl⟩, hboth⟩ := hfirst.append
      (P := fun f => ∃ children', f = .element () _ children' .nil) fun g hg =>
        have ⟨children', hadds⟩ := exists_adds_spacerTable hs hsecond hg
        ⟨_, ⟨children', rfl⟩, hadds⟩
    rw [Growth.parse_of_adds hboth hf]
    refine ⟨List.cons_ne_nil _ _, List.forall_mem_cons.mpr ⟨⟨_, rfl⟩, ?_⟩⟩
    exact List.forall_mem_singleton.mpr ⟨_, rfl⟩

/-- Whatever is inside a component, its bearers are read with what it gives them. -/
theorem bears_of_parse (width : Int) {kind : Component} (hmarker : kind ≠ .marker)
    (hcenter : kind ≠ .center) (hlink : kind = .button → (t.filled? "href").isSome = true)
    (hs : Template.IsSign sign) (children : Forest α) (around : Neighbours)
    (hframed : (frame width kind t children around).Framed (Template.IsShut sign)) (inner : String)
    {f : Forest Unit} (hf : Forest.parse Grammar.standard (Format.signed sign
      ((frame width kind t children around).fill inner).write.toList) = .ok f) :
    bearers kind f ≠ [] ∧ ∀ e ∈ bearers kind f, ∃ name attributes,
      e.tag = Template.tagRead sign (name, attributes) ∧ Bears kind t attributes := by
  have hopeners := Template.isOpener_of_framed hframed
  have hgrows := Template.grows_opening hs (t := (frame width kind t children around).fill inner)
    (by rw [Template.opening_fill]; exact hopeners) hf
  rw [Template.opening_fill] at hgrows
  by_cases hspacer : kind = .spacer
  · subst hspacer
    have hfill : (frame width .spacer t children around).fill inner = spacer (carriedTexts t) t :=
      fill_spacer inner _ t
    rw [hfill] at hf
    obtain ⟨hne, hall⟩ := elements_spacer hs hframed hf
    refine ⟨hne, fun e he => ?_⟩
    obtain ⟨classes, hclasses⟩ := hall e he
    exact ⟨_, _, hclasses, bears_behind rfl (List.forall_mem_singleton.mpr rfl)⟩
  by_cases hbutton : kind = .button
  · subst hbutton
    obtain ⟨href, hhref⟩ := Option.isSome_iff_exists.mp (hlink rfl)
    obtain ⟨outer, houter, hopening⟩ := exists_opening_link width hhref children around
    rw [hopening, List.map_append] at hgrows
    have hnames : ∀ tag ∈ outer.map (Template.tagRead sign), (tag.name == "a") = false :=
      List.forall_mem_map.mpr fun start hm => beq_false_of_ne (houter start hm)
    obtain ⟨e, he, htag⟩ := Forest.find?_descendants_of_grows (p := fun tag => tag.name == "a")
      hnames rfl hgrows
    have hbearers : bearers .button f = [e] := by
      simp only [bearers, he, Option.toList_some]
    rw [hbearers]
    refine ⟨List.cons_ne_nil _ _, List.forall_mem_singleton.mpr ⟨_, _, htag, ?_⟩⟩
    exact bears_behind rfl (List.forall_mem_cons.mpr ⟨rfl, isPassed_target⟩)
  · obtain ⟨name, attributes, inside, hopening, hbears⟩ :=
      exists_opening_first width hbutton hspacer hmarker hcenter t children around
    rw [hopening] at hgrows
    obtain ⟨e, he, htag⟩ := Forest.head?_elements_of_grows hgrows
    have hbearers : bearers kind f = [e] := by
      cases kind with
      | button => exact absurd rfl hbutton
      | spacer => exact absurd rfl hspacer
      | _ => simp only [bearers, he, Option.toList_some]
    rw [hbearers]
    exact ⟨List.cons_ne_nil _ _, List.forall_mem_singleton.mpr ⟨_, _, htag, hbears⟩⟩

-- ---------------------------------------------------------------------------
-- Expansions

theorem framed_escaped (width : Int) {kind : Component} (hmarker : kind ≠ .marker) (ht : t.IsRead)
    (hampersand : ∀ a ∈ t.attributes, '&' ∈ a.1.toList → sign = '&') (children : Forest α)
    (around : Neighbours) :
    (frame width kind (escaped t) children around).Framed (Template.IsShut sign) := by
  have hsupplies : Supplies (Template.IsShut sign) (fun s => '"' ∉ s.toList) (escaped t) := by
    refine supplies_unquoted (fun hn hv => ?_) fun a ha value hv => ?_
    · have hname := Markup.isReadName_of_isPlainName hn
      exact ⟨hname.isName, hname.lower, fun hm => absurd hm hname.ampersand, hv⟩
    · obtain ⟨-, hname⟩ := ht.attributes a ha
      exact ⟨hname.isName, hname.lower, hampersand a ha, hv⟩
  exact hsupplies.frame width children around hmarker

/-- In whatever format the inside is written, and with whatever sign for ampersands all of it is
read: what a component passes stands in its bearers, with its quotes escaped. -/
theorem passed_of_parse (width : Int) {kind : Component} (hmarker : kind ≠ .marker)
    (hcenter : kind ≠ .center) (hlink : kind = .button → (t.filled? "href").isSome = true)
    (hs : Template.IsSign sign) (ht : t.IsRead)
    (hampersand : ∀ a ∈ t.attributes, '&' ∈ a.1.toList → sign = '&') (hq : IsUnquoted kind t)
    {format : Format} {children : Forest Nat} {inner : String}
    (hw : format.write (some t.name) children = .ok inner) (before after : List (Element Nat)) :
    ∃ markup, template (.standard width) format (some kind) t children before after =
      .ok markup ∧ ∀ new : Forest Unit,
        Forest.parse Grammar.standard (Format.signed sign markup.write.toList) = .ok new →
        bearers kind new ≠ [] ∧ ∀ e ∈ bearers kind new, ∀ a ∈ t.attributes,
          isPassed kind a.1 = true → e.tag.get? a.1 = if handsOn kind
            then some (.text (Format.valueRead sign (quoteEscaped a.2.shown))) else none := by
  have htemplate := (template_escaped width format ht hq children before after).symm.trans
    (template_of_write width kind (carried_escaped ht) hw before after)
  have hframed := framed_escaped width hmarker ht hampersand children
    (neighbours (.standard width) before after)
  have hlinked : kind = .button → ((escaped t).filled? "href").isSome = true := by
    rintro rfl
    rw [filled?_escaped ht hq (by decide)]
    exact hlink rfl
  refine ⟨_, htemplate, fun new hnew => ?_⟩
  obtain ⟨hne, hall⟩ := bears_of_parse width hmarker hcenter hlinked hs children _ hframed inner hnew
  refine ⟨hne, fun e he a ha hpassed => ?_⟩
  obtain ⟨name, attributes, htag, hbears⟩ := hall e he
  rw [htag]
  exact hbears.get? ht ha hpassed

theorem valueRead_placeholder (value : String) :
    Format.valueRead '\ue000' value = Format.standard.protect value := by
  have hampersand := Format.not_mem_protectedChars value
  rw [Format.protectedChars_eq_signed] at hampersand
  rw [Format.valueRead, Markup.Reference.resolve_of_not_mem hampersand,
    ← Format.protectedChars_eq_signed, ← Format.toList_protect, String.ofList_toList]

theorem isSign_placeholder : Template.IsSign '\ue000' :=
  ⟨by decide, by decide⟩

/-- Every attribute that a component neither uses up nor sets itself is on what bears its
attributes, under its name and with its value but for the quotes, which are escaped; a horizontal
line and a block grid leave all of them out. -/
theorem attributes_handed_on (width : Int) {kind : Component} {place : Place Nat} {t : Tag}
    {children : Forest Nat} (hmarker : kind ≠ .marker) (hcenter : kind ≠ .center)
    (hlink : kind = .button → (t.filled? "href").isSome = true)
    (hnode : place.node = .element t children) (hname : t.name ≠ "") (ht : t.IsParsed)
    (hq : IsUnquoted kind t) :
    ∃ text, ofPlace (.standard width) Format.standard (some kind) place = .ok (.markup text) ∧
      ((∃ inner, children.ReadsAs inner) → ∃ new, Format.standard.read text = .ok new) ∧
      ∀ new, Format.standard.read text = .ok new → bearers kind new ≠ [] ∧
        ∀ e ∈ bearers kind new, ∀ a ∈ t.attributes, isPassed kind a.1 = true →
          e.tag.get? a.1 = if handsOn kind
            then some (.text (Format.standard.protect (quoteEscaped a.2.shown))) else none := by
  have hempty : t.name.isEmpty = false := by simpa using hname
  have hampersand : ∀ a ∈ t.attributes, '&' ∈ a.1.toList → '\ue000' = '&' :=
    fun a ha hm => absurd hm (ht.attributes a ha).2.ampersand
  obtain ⟨markup, htemplate, hpassed⟩ := passed_of_parse width hmarker hcenter hlink
    isSign_placeholder ht.isRead hampersand hq (Format.write_standard _ children) place.before
    place.after
  refine ⟨_, Unfolder.ofPlace_of_template hnode hempty hcenter htemplate, ?_, fun new hnew => ?_⟩
  · rintro ⟨inner, hinner⟩
    obtain ⟨markup', new, htemplate', hread, -⟩ :=
      read_template width hcenter ht hq hinner place.before place.after
    cases htemplate.symm.trans htemplate'
    exact ⟨new, hread⟩
  · rw [Format.read_standard, Format.protectedChars_eq_signed] at hnew
    simpa only [valueRead_placeholder] using hpassed new hnew

/-- A spacer of two sizes with a title. -/
def titledSpacer : Tag :=
  ⟨"spacer", [("size-sm", .text "10"), ("size-lg", .text "20"), ("title", .text "a\"b")], true⟩

def spacerPlace : Place Nat :=
  ⟨0, .element titledSpacer .nil, [], []⟩

theorem attributes_handed_on_titledSpacer :
    Component.spacer ≠ .marker ∧ Component.spacer ≠ .center ∧ titledSpacer.name ≠ "" ∧
      titledSpacer.IsParsed ∧ IsUnquoted .spacer titledSpacer ∧
      ∃ text, ofPlace (.standard 12) Format.standard (some .spacer) spacerPlace =
        .ok (.markup text) ∧ ∃ new, Format.standard.read text = .ok new ∧
          new.elements ≠ [] ∧ ∀ e ∈ new.elements,
            e.tag.get? "title" = some (.text "a\ue000quot;b") := by
  have hparsed : titledSpacer.IsParsed := by
    refine isParsed_of_isPlainName ?_ (by decide)
    refine List.forall_mem_cons.mpr ⟨⟨⟨_, rfl⟩, by decide⟩, ?_⟩
    refine List.forall_mem_cons.mpr ⟨⟨⟨_, rfl⟩, by decide⟩, ?_⟩
    exact List.forall_mem_singleton.mpr ⟨⟨_, rfl⟩, by decide⟩
  have hunquoted : IsUnquoted .spacer titledSpacer := by
    refine List.forall_mem_cons.mpr ⟨nofun, List.forall_mem_cons.mpr ⟨nofun, ?_⟩⟩
    refine List.forall_mem_cons.mpr ⟨?_, List.forall_mem_singleton.mpr ?_⟩
    · rintro s h; cases h; decide
    · rintro s h; cases h; decide
  have hnode : spacerPlace.node = .element titledSpacer .nil := rfl
  refine ⟨nofun, nofun, by decide, hparsed, hunquoted, ?_⟩
  obtain ⟨text, htext, hread, hall⟩ := attributes_handed_on 12
    (nofun : Component.spacer ≠ .marker) nofun nofun hnode (by decide) hparsed hunquoted
  obtain ⟨new, hnew⟩ := hread ⟨_, Forest.Plain.readsAs trivial⟩
  obtain ⟨hne, hbearers⟩ := hall new hnew
  have htitle : ("title", AttributeValue.text "a\"b") ∈ titledSpacer.attributes := by
    simp [titledSpacer]
  have hvalue : Format.standard.protect (quoteEscaped "a\"b") = "a\ue000quot;b" := by decide +kernel
  refine ⟨text, htext, new, hnew, hne, fun e he => ?_⟩
  rw [← hvalue]
  exact hbearers e he _ htitle rfl

/-- A horizontal line that is set from right to left. -/
def rightToLeft : Tag :=
  ⟨"h-line", [("dir", .text "rtl")], false⟩

def linePlace : Place Nat :=
  ⟨0, .element rightToLeft .nil, [], []⟩

theorem not_attributes_handed_on : ¬ ∀ (width : Int) (kind : Component) (place : Place Nat)
    (t : Tag) (children : Forest Nat), kind ≠ .marker → kind ≠ .center →
    (kind = .button → (t.filled? "href").isSome = true) → place.node = .element t children →
    t.name ≠ "" → t.IsParsed →
      ∃ text, ofPlace (.standard width) Format.standard (some kind) place = .ok (.markup text) ∧
        ∀ new, Format.standard.read text = .ok new → ∀ e ∈ bearers kind new, ∀ a ∈ t.attributes,
          isPassed kind a.1 = true →
            e.tag.get? a.1 = some (.text (Format.standard.protect (quoteEscaped a.2.shown))) := by
  intro h
  have hparsed : rightToLeft.IsParsed :=
    isParsed_of_isPlainName (List.forall_mem_singleton.mpr ⟨⟨_, rfl⟩, by decide⟩) (by decide)
  have hunquoted : IsUnquoted .line rightToLeft :=
    List.forall_mem_singleton.mpr nofun
  have hnode : linePlace.node = .element rightToLeft .nil := rfl
  have hdir : ("dir", AttributeValue.text "rtl") ∈ rightToLeft.attributes := List.mem_cons_self
  obtain ⟨text, htext, hall⟩ := h 12 .line linePlace rightToLeft .nil nofun nofun nofun hnode
    (by decide) hparsed
  obtain ⟨markup, new, htemplate, hread, -⟩ := read_template 12 (nofun : Component.line ≠ .center) hparsed
    hunquoted (Forest.Plain.readsAs (f := .nil) trivial) [] []
  have hwritten := Unfolder.ofPlace_of_template hnode rfl (by decide) htemplate
  cases htext.symm.trans hwritten
  -- the table is there, but without the attribute
  obtain ⟨markup', htemplate', hpassed⟩ := passed_of_parse 12 (nofun : Component.line ≠ .marker) nofun nofun
    isSign_placeholder hparsed.isRead
    (fun a ha hm => absurd hm (hparsed.attributes a ha).2.ampersand) hunquoted
    (Format.write_standard _ .nil) [] []
  cases htemplate.symm.trans htemplate'
  have hparse := hread
  rw [Format.read_standard, Format.protectedChars_eq_signed] at hparse
  obtain ⟨hne, hnone⟩ := hpassed new hparse
  obtain ⟨e, he⟩ := List.exists_mem_of_ne_nil _ hne
  have hlost := hnone e he _ hdir rfl
  have hkept := hall new hread e he _ hdir rfl
  cases hkept.symm.trans hlost

end Expansion

end Mailgrid
