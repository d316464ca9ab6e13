import Mailgrid.Proofs.Expansion.HandedOn

/-!
# Values that are decoded again

Where references are decoded, a document is read without placeholders, and so is
the markup that is generated for its components. What was decoded when the
document was read is written as it is and decoded again. `decoded_again`: every
value that a component passes, and every address and target of a link, is read
with its references resolved once more. It stays the same if there are none.
-/

namespace Mailgrid

open Markup (AttributeValue Element Forest Grammar Place Tag Token bareStyle)

/-- The format of documents whose references are decoded. -/
def Format.decoding : Format :=
  ofEntries Settings.standard [(.text "decode_entities", .bool true)]

namespace Expansion

/-- A value with its references resolved. -/
def decoded (value : String) : String :=
  String.ofList (Markup.Reference.resolve value.toList)

theorem signed_ampersand (s : List Char) : Format.signed '&' s = s :=
  Format.signed_of_imp fun _ => rfl

theorem valueRead_ampersand (value : String) : Format.valueRead '&' value = decoded value := by
  rw [Format.valueRead, signed_ampersand, decoded]

theorem decoded_quoteEscaped (value : String) : decoded (quoteEscaped value) = decoded value := by
  have hescaped : (quoteEscaped value).toList = Markup.Reference.escapedQuotes value.toList :=
    String.toList_ofList
  rw [decoded, hescaped, Markup.Reference.resolve_escapedQuotes, decoded]

theorem isSign_ampersand : Template.IsSign '&' :=
  ⟨by decide, by decide⟩

theorem read_decoding (text : String) :
    Format.decoding.read text = Forest.parse Grammar.standard text.toList :=
  rfl

theorem write_decoding (parent : Option String) (f : Forest α) : ∃ inner,
    Format.decoding.write parent f = .ok inner :=
  ⟨_, rfl⟩

-- ---------------------------------------------------------------------------
-- Links

variable {t : Tag}

/-- Buttons that lead somewhere and menu items have a link, the first in their markup, with what
their tag says of it. -/
theorem exists_opening_anchor (width : Int) {kind : Component}
    (hkind : kind = .button ∨ kind = .menuItem)
    (hlink : kind = .button → (t.filled? "href").isSome = true) (children : Forest α)
    (around : Neighbours) : ∃ outer own inner, (∀ start ∈ outer, start.1 ≠ "a") ∧
      (∀ a ∈ own, a.1 ∉ consumed) ∧ (frame width kind t children around).opening =
        outer ++ ("a", own ++ ("href", (t.filled? "href").getD "") :: target t) :: inner := by
  rcases hkind with rfl | rfl
  · obtain ⟨href, hhref⟩ := Option.isSome_iff_exists.mp (hlink rfl)
    obtain ⟨outer, houter, hopening⟩ := exists_opening_link width hhref children around
    refine ⟨outer, carriedTexts t, [], houter, fun a ha => ?_, ?_⟩
    · obtain ⟨b, hb, rfl⟩ := List.mem_map.mp ha
      simpa using (List.mem_filter.mp hb).2
    · rw [hopening, hhref]
      rfl
  · refine ⟨[("th", carriedTexts t ++ [("class", classText t ["menu-item"])])], [], [], ?_, nofun,
      rfl⟩
    simp

theorem get?_anchor {sign : Char} {own : List (String × String)} (hown : ∀ a ∈ own, a.1 ∉ consumed)
    {name : String} (hname : name = "href" ∨ name = "target") {value : String}
    (hvalue : t.filled? name = some value) :
    (Template.tagRead sign ("a", own ++ ("href", (t.filled? "href").getD "") :: target t)).get? name =
      some (.text (Format.valueRead sign value)) := by
  have hconsumed : name ∈ consumed := by
    rcases hname with rfl | rfl <;> decide
  have htarget : ∀ a ∈ target t, a.1 = "target" ∧ t.filled? "target" = some a.2 := by
    unfold target
    split
    · rename_i shown hshown
      exact List.forall_mem_singleton.mpr ⟨rfl, hshown⟩
    · exact nofun
  refine get?_tagRead_of_forall ?_ fun a ha hkey => ?_
  · rcases hname with rfl | rfl
    · simp [hvalue]
    · simp [target, hvalue]
  · rcases List.mem_append.mp ha with ha | ha
    · exact absurd (hkey ▸ hconsumed) (hown a ha)
    · rcases List.mem_cons.mp ha with rfl | ha
      · rw [← hkey] at hvalue
        simp [hvalue]
      · obtain ⟨hsame, hshown⟩ := htarget a ha
        rw [← hkey, hsame] at hvalue
        exact Option.some.inj (hshown.symm.trans hvalue)

/-- Whatever is inside, the link of a component is read with its address and its target. -/
theorem anchor_of_parse (width : Int) {sign : Char} {kind : Component}
    (hkind : kind = .button ∨ kind = .menuItem)
    (hlink : kind = .button → (t.filled? "href").isSome = true) (hs : Template.IsSign sign)
    (children : Forest α) (around : Neighbours)
    (hframed : (frame width kind t children around).Framed (Template.IsShut sign)) (inner : String)
    {f : Forest Unit} (hf : Forest.parse Grammar.standard (Format.signed sign
      ((frame width kind t children around).fill inner).write.toList) = .ok f) :
    ∃ link, f.descendants.find? (fun e => e.tag.name == "a") = some link ∧
      ∀ name value, (name = "href" ∨ name = "target") → t.filled? name = some value →
        link.tag.get? name = some (.text (Format.valueRead sign value)) := by
  obtain ⟨outer, own, within, houter, hown, hopening⟩ :=
    exists_opening_anchor width hkind hlink children around
  have hopeners := Template.isOpener_of_framed hframed
  have hgrows := Template.grows_opening hs (t := (frame width kind t children around).fill inner)
    (by rw [Template.opening_fill]; exact hopeners) hf
  rw [Template.opening_fill, hopening, List.map_append] at hgrows
  have hnames : ∀ tag ∈ outer.map (Template.tagRead sign), (tag.name == "a") = false :=
    List.forall_mem_map.mpr fun start hm => beq_false_of_ne (houter start hm)
  obtain ⟨link, hfound, htag⟩ := Forest.find?_descendants_of_grows
    (p := fun tag => tag.name == "a") hnames rfl hgrows
  refine ⟨link, hfound, fun name value hname hvalue => ?_⟩
  rw [htag]
  exact get?_anchor hown hname hvalue

-- ---------------------------------------------------------------------------
-- Expansions

/-- Every value that a component passes, and every address and target that its link is given, is
read with its references resolved once more, whatever is inside the component. -/
theorem decoded_again (width : Int) {kind : Component} {place : Place Nat} {t : Tag}
    {children : Forest Nat} (hkind : handsOn kind = true)
    (hlink : kind = .button → (t.filled? "href").isSome = true)
    (hnode : place.node = .element t children) (hname : t.name ≠ "") (ht : t.IsRead)
    (hq : IsUnquoted kind t) :
    ∃ text, ofPlace (.standard width) Format.decoding (some kind) place = .ok (.markup text) ∧
      ∀ new, Format.decoding.read text = .ok new →
        (bearers kind new ≠ [] ∧ ∀ e ∈ bearers kind new, ∀ a ∈ t.attributes,
          isPassed kind a.1 = true → e.tag.get? a.1 = some (.text (decoded a.2.shown))) ∧
        (kind = .button ∨ kind = .menuItem →
          ∃ link, new.descendants.find? (fun e => e.tag.name == "a") = some link ∧
            ∀ name value, (name = "href" ∨ name = "target") → t.filled? name = some value →
              link.tag.get? name = some (.text (decoded value))) := by
  have hempty : t.name.isEmpty = false := by simpa using hname
  have hmarker : kind ≠ .marker := by
    rintro rfl
    cases hkind
  have hcenter : kind ≠ .center := by
    rintro rfl
    cases hkind
  obtain ⟨inner, hinner⟩ := write_decoding (some t.name) children
  have htemplate := (template_escaped width Format.decoding ht hq children place.before
    place.after).symm.trans (template_of_write width kind (carried_escaped ht) hinner place.before
      place.after)
  obtain ⟨markup, hmarkup, hpassed⟩ := passed_of_parse width hmarker hcenter hlink isSign_ampersand
    ht (fun _ _ _ => rfl) hq hinner place.before place.after
  refine ⟨_, Unfolder.ofPlace_of_template hnode hempty hcenter hmarkup, fun new hnew => ⟨?_, ?_⟩⟩
  · obtain ⟨hne, hall⟩ := hpassed new (by rw [signed_ampersand]; exact hnew)
    refine ⟨hne, fun e he a ha hp => ?_⟩
    rw [hall e he a ha hp, if_pos hkind, valueRead_ampersand, decoded_quoteEscaped]
  · intro hanchor
    have hspliced (name : String) (h : name = "href" ∨ name = "target") :
        (escaped t).filled? name = t.filled? name := by
      refine filled?_escaped ht hq ?_
      rcases hanchor with rfl | rfl <;> rcases h with rfl | rfl <;> decide
    have hlinked : kind = .button → ((escaped t).filled? "href").isSome = true := by
      rw [hspliced "href" (.inl rfl)]
      exact hlink
    cases hmarkup.symm.trans htemplate
    rw [read_decoding, ← signed_ampersand (Template.write _).toList] at hnew
    obtain ⟨link, hfound, hvalues⟩ := anchor_of_parse width hanchor hlinked isSign_ampersand children
      _ (framed_escaped width hmarker ht (fun _ _ _ => rfl) children _) inner hnew
    refine ⟨link, hfound, fun name value hn hv => ?_⟩
    rw [hvalues name value hn ((hspliced name hn).trans hv), valueRead_ampersand]

/-- A row whose title shows how a reference is written. -/
def referringRow : Tag :=
  ⟨"row", [("title", .text "&#60;")], false⟩

def referringPlace : Place Nat :=
  ⟨0, .element referringRow .nil, [], []⟩

def referringMarkup : String :=
  "<table title=\"&#60;\" class=\"row\"><tbody><tr></tr></tbody></table>"

def referringTable : Tag :=
  ⟨"table", [("title", .text "&#60;"), ("class", .text "row")], false⟩

def emptyTag (name : String) : Tag :=
  ⟨name, [], false⟩

theorem ofPlace_referring : ofPlace (.standard 12) Format.decoding (some .row) referringPlace =
    .ok (.markup referringMarkup) := by
  have htext : (row [("title", "&#60;")] referringRow (.raw "")).write = referringMarkup := by
    decide +kernel
  rw [← htext]
  rfl

theorem exists_read_referring : ∃ new, Format.decoding.read referringMarkup = .ok new := by
  have htable : referringTable.isQuoted = true := by decide
  have hbody : (emptyTag "tbody").isQuoted = true := by decide
  have hrow : (emptyTag "tr").isQuoted = true := by decide
  have hshort : Markup.holdTooLong referringTable.attributes = false := by decide
  have hname {name : String} (h : (emptyTag name).isQuoted = true) :
      Markup.isLegible (emptyTag name).name = true := by
    simp only [Tag.isQuoted, Bool.and_eq_true] at h
    exact h.1.1
  have hwritten : referringMarkup.toList = bareStyle.startTag referringTable ['>'] ++
      (bareStyle.startTag (emptyTag "tbody") ['>'] ++ (bareStyle.startTag (emptyTag "tr") ['>'] ++
        (Markup.Style.endTag (emptyTag "tr") ++ (Markup.Style.endTag (emptyTag "tbody") ++
          (Markup.Style.endTag (emptyTag "table") ++ []))))) := by
    decide +kernel
  rw [read_decoding, hwritten, Forest.parse, Token.ofText, Token.scan_quoted htable .open_, hshort,
    if_neg Bool.false_ne_true, Token.scan_quoted hbody .open_, Token.scan_quoted hrow .open_,
    Token.scan_legibleEnd (hname hrow), Token.scan_legibleEnd (hname hbody),
    Token.scan_legibleEnd (by decide), Token.scan_nil]
  exact ⟨_, rfl⟩

theorem decoded_referring : decoded "&#60;" = "<" := by
  have hnumber : Markup.Reference.valueAfter? ['#', '6', '0', ';'] = some (['<'], []) := by decide
  have hresolved := Markup.Reference.resolve_some hnumber
  have hnil : Markup.Reference.resolve [] = [] := Markup.Reference.resolve_of_not_mem (by simp)
  have hchars : "&#60;".toList = ['&', '#', '6', '0', ';'] := rfl
  rw [decoded, hchars, hresolved, hnil]
  rfl

theorem isRead_referringRow : referringRow.IsRead :=
  (Markup.isParsed_of_isPlainName (List.forall_mem_singleton.mpr ⟨⟨_, rfl⟩, by decide⟩)
    (by decide)).isRead

theorem decoded_again_referringRow : handsOn .row = true ∧ referringRow.name ≠ "" ∧
    referringRow.IsRead ∧ IsUnquoted .row referringRow ∧ ∃ text new,
      ofPlace (.standard 12) Format.decoding (some .row) referringPlace = .ok (.markup text) ∧
        Format.decoding.read text = .ok new ∧ bearers .row new ≠ [] ∧
          ∀ e ∈ bearers .row new, e.tag.get? "title" = some (.text "<") := by
  have hunquoted : IsUnquoted .row referringRow := List.forall_mem_singleton.mpr nofun
  have hnode : referringPlace.node = .element referringRow .nil := rfl
  refine ⟨rfl, by decide, isRead_referringRow, hunquoted, ?_⟩
  obtain ⟨text, htext, hall⟩ := decoded_again 12 (rfl : handsOn .row = true) nofun hnode (by decide)
    isRead_referringRow hunquoted
  cases htext.symm.trans ofPlace_referring
  obtain ⟨new, hnew⟩ := exists_read_referring
  obtain ⟨⟨hne, hvalues⟩, -⟩ := hall new hnew
  refine ⟨_, new, htext, hnew, hne, fun e he => ?_⟩
  rw [← decoded_referring]
  exact hvalues e he _ List.mem_cons_self rfl

theorem not_decoded_again : ¬ ∀ (width : Int) (kind : Component) (place : Place Nat) (t : Tag)
    (children : Forest Nat), handsOn kind = true →
    (kind = .button → (t.filled? "href").isSome = true) → place.node = .element t children →
    t.name ≠ "" → t.IsRead →
      ∃ text, ofPlace (.standard width) Format.decoding (some kind) place = .ok (.markup text) ∧
        ∀ new, Format.decoding.read text = .ok new → ∀ e ∈ bearers kind new, ∀ a ∈ t.attributes,
          isPassed kind a.1 = true → e.tag.get? a.1 = some (.text a.2.shown) := by
  intro h
  have hnode : referringPlace.node = .element referringRow .nil := rfl
  have htitle : ("title", AttributeValue.text "&#60;") ∈ referringRow.attributes :=
    List.mem_cons_self
  obtain ⟨text, htext, hall⟩ := h 12 .row referringPlace referringRow .nil rfl nofun hnode
    (by decide) isRead_referringRow
  cases htext.symm.trans ofPlace_referring
  obtain ⟨new, hnew⟩ := exists_read_referring
  -- what is read has the title resolved, not as it was
  obtain ⟨markup, hmarkup, hpassed⟩ := passed_of_parse 12 (nofun : Component.row ≠ .marker) nofun nofun
    isSign_ampersand isRead_referringRow (fun _ _ _ => rfl) (List.forall_mem_singleton.mpr nofun)
    (rfl : Format.decoding.write _ .nil = .ok "") [] []
  have hwritten := (Unfolder.ofPlace_of_template hnode rfl (by decide) hmarkup).symm.trans
    ofPlace_referring
  simp only [Except.ok.injEq, Expansion.markup.injEq] at hwritten
  obtain ⟨hne, hvalues⟩ := hpassed new (by rw [signed_ampersand, hwritten]; exact hnew)
  obtain ⟨e, he⟩ := List.exists_mem_of_ne_nil _ hne
  have hread := hvalues e he _ htitle rfl
  have hrow : handsOn .row = true := rfl
  rw [if_pos hrow, valueRead_ampersand, decoded_quoteEscaped] at hread
  have hsame := hall new hnew e he _ htitle rfl
  have hshown : decoded "&#60;" = "&#60;" := by
    simpa [AttributeValue.shown] using hread.symm.trans hsame
  rw [decoded_referring] at hshown
  exact absurd hshown (by decide)

end Expansion

end Mailgrid
