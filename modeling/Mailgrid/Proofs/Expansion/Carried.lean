import Mailgrid.Proofs.Expansion.Values

/-!
# Carried attributes

Attributes that are carried over are written with nothing but their quotes
escaped, and they are read back one by one, in their order, whatever else their
values hold.
-/

namespace Mailgrid

open Markup (AttributeValue Forest IsReadName Tag)

-- ---------------------------------------------------------------------------
-- Names

namespace Markup

def isSmallNameChar (c : Char) : Bool :=
  c.isLower || c.isDigit || c == '_' || c == ':' || c == '.' || c == '-'

/-- Small letters, digits, and the signs that names may have, a letter first. -/
def isSmallName (name : String) : Bool :=
  name.toList.head?.any Char.isLower && name.toList.all isSmallNameChar

theorem of_isSmallNameChar {c : Char} (h : isSmallNameChar c = true) :
    OpenTag.isAttributeChar c = true ∧ c.toLower = c ∧ c.toNat < 0x80 ∧ c ≠ '&' := by
  by_cases hplain : (c.isLower || c.isDigit || c == '-') = true
  · obtain ⟨hletter, hlower⟩ := of_isPlainNameChar hplain
    refine ⟨(of_isNameLetter hletter).2.1, hlower, ascii_of_isNameLetter hletter, ?_⟩
    rintro rfl
    cases hletter
  · simp only [isSmallNameChar, Bool.or_eq_true, beq_iff_eq] at h hplain
    have hsign : c = '_' ∨ c = ':' ∨ c = '.' := by tauto
    rcases hsign with rfl | rfl | rfl <;> decide

theorem isReadName_of_isSmallName {name : String} (h : isSmallName name = true) :
    IsReadName name := by
  simp only [isSmallName, Bool.and_eq_true, List.all_eq_true] at h
  obtain ⟨hstart, hall⟩ := h
  refine ⟨?_, ?_, fun hm => (of_isSmallNameChar (hall _ hm)).2.2.2 rfl⟩
  · unfold isAttributeName
    cases hname : name.toList with
    | nil => simp [hname] at hstart
    | cons c rest =>
      rw [hname] at hall
      obtain ⟨hc, hrest⟩ := List.forall_mem_cons.mp hall
      have hattribute := (of_isSmallNameChar hc).1
      simp only [OpenTag.isAttributeChar, Bool.not_eq_true', Bool.or_eq_false_iff] at hattribute
      simp only [Bool.and_eq_true, List.all_eq_true]
      exact ⟨by simp [hattribute], fun d hd => (of_isSmallNameChar (hrest d hd)).1⟩
  · have hmap : name.toList.map Char.toLower = name.toList :=
      (List.map_congr_left fun c hc => (of_isSmallNameChar (hall c hc)).2.1).trans (List.map_id' _)
    rw [Text.lowerString, Text.lower_of_ascii fun c hc => (of_isSmallNameChar (hall c hc)).2.2.1,
      hmap, String.ofList_toList]

theorem Forest.eq_nil_of_bare {f : Forest Unit} (h : f.bare = .nil) : f = .nil := by
  cases f with
  | nil => rfl
  | leaf => cases h
  | element => cases h

end Markup

namespace Expansion

-- ---------------------------------------------------------------------------
-- Values

/-- A value with the reference to a quote for each quote, its ampersand protected. -/
def quotesProtected (s : String) : String :=
  String.ofList (s.toList.flatMap fun c => if c = '"' then "\ue000quot;".toList else [c])

theorem protect_quoteEscaped {s : String} (h : '&' ∉ s.toList) :
    Format.standard.protect (quoteEscaped s) = quotesProtected s := by
  unfold quoteEscaped quotesProtected
  rw [← String.toList_inj, Format.toList_protect, String.toList_ofList]
  simp only [Format.protectedChars, String.toList_ofList, List.flatMap_assoc]
  refine List.flatMap_congr fun c hc => ?_
  have hne : c ≠ '&' := by
    rintro rfl
    exact h hc
  by_cases hquote : c = '"'
  · simp [hquote]
  · simp [hquote, hne]

variable {t : Tag}

/-- The attributes of a tag that are not used up, with a change made to each value. -/
def passedOn (t : Tag) (change : String → α) : List (String × α) :=
  (t.attributes.filter fun a => !consumed.contains a.1).map fun a => (a.1, change a.2.shown)

theorem carried_eq_passedOn (h : ∀ a ∈ t.attributes, ∀ words, a.2 ≠ .words words) :
    carried t = .ok (passedOn t quoteEscaped) := by
  refine mapM_eq_ok fun a ha => ?_
  have hwords := h a (List.mem_of_mem_filter ha)
  obtain ⟨name, value⟩ := a
  cases value with
  | words words => exact absurd rfl (hwords words)
  | text => rfl
  | charset => rfl
  | contentType => rfl

theorem writeAttributes_append (a b : List (String × String)) :
    Template.writeAttributes (a ++ b) = Template.writeAttributes a ++ Template.writeAttributes b := by
  simp [Template.writeAttributes]

theorem names_passedOn (nodup : (t.attributes.map (·.1)).Nodup) (change : String → α) (last : α) :
    ((passedOn t change ++ [("class", last)]).map (·.1)).Nodup := by
  have hnames : (passedOn t change).map (·.1) =
      (t.attributes.filter fun a => !consumed.contains a.1).map (·.1) := by
    simp [passedOn, Function.comp_def]
  have hfilter : ((passedOn t change).map (·.1)).Nodup := by
    rw [hnames]
    exact nodup.sublist (List.filter_sublist.map _)
  rw [List.map_append, List.nodup_append]
  refine ⟨hfilter, by simp, ?_⟩
  rintro name hname _ hclass rfl
  obtain rfl : name = "class" := List.mem_singleton.mp hclass
  rw [hnames] at hname
  obtain ⟨a, ha, hclass⟩ := List.mem_map.mp hname
  have hkept := (List.mem_filter.mp ha).2
  rw [hclass] at hkept
  exact absurd hkept (by decide)

/-- The attributes that a tag passes on, with a class behind them. -/
def carriedTable (t : Tag) : Template :=
  .node "table" (passedOn t quoteEscaped ++ [("class", "c")]) .nil

/-- The table that this is to be read as. -/
def readTable (t : Tag) : Tag :=
  ⟨"table", passedOn t (fun s => .text (quotesProtected s)) ++ [("class", .text "c")], false⟩

theorem write_carriedTable (t : Tag) : (carriedTable t).write =
    "<table" ++ Template.writeAttributes (passedOn t quoteEscaped) ++ " class=\"c\"></table>" := by
  have hclass : Template.writeAttributes [("class", "c")] = " class=\"c\"" := by decide
  rw [carriedTable, Template.write_node, writeAttributes_append, hclass]
  simp only [Template.write, String.append_empty, String.append_assoc]
  rfl

theorem sealed_carriedTable (names : ∀ a ∈ t.attributes, Markup.isSmallName a.1 = true) :
    (carriedTable t).Framed Template.IsSealed := by
  refine ⟨by decide, List.forall_mem_append.mpr ⟨?_, ?_⟩, rfl, trivial, trivial⟩
  · intro a ha
    obtain ⟨b, hb, rfl⟩ := List.mem_map.mp ha
    have hname := names b (List.mem_of_mem_filter hb)
    exact ⟨Markup.isReadName_of_isSmallName hname, not_mem_quoteEscaped _⟩
  · exact List.forall_mem_singleton.mpr ⟨Markup.isReadName_of_isSmallName (by decide), by decide⟩

theorem forest_carriedTable (values : ∀ a ∈ t.attributes, '&' ∉ a.2.shown.toList)
    (nodup : (t.attributes.map (·.1)).Nodup) :
    ((carriedTable t).mapValues Format.standard.protect).forest .nil =
      .element () (readTable t) .nil .nil := by
  have hvalues : (passedOn t quoteEscaped ++ [("class", "c")]).map
      (Prod.map id fun value => AttributeValue.text (Format.standard.protect value)) =
        passedOn t (fun s => .text (quotesProtected s)) ++ [("class", .text "c")] := by
    rw [List.map_append, passedOn, List.map_map]
    refine congrArg₂ _ (List.map_congr_left fun a ha => ?_) ?_
    · have hvalue := protect_quoteEscaped (values a (List.mem_of_mem_filter ha))
      simp [hvalue]
    · simp [Format.protect_of_not_mem (show '&' ∉ "c".toList by decide)]
  have htag : Template.tag "table" (Template.protectedValues (passedOn t quoteEscaped ++
      [("class", "c")])) = readTable t := by
    rw [Template.tag, Template.protectedValues, readTable, List.map_map]
    exact congrArg (Tag.mk "table" · false)
      ((congrArg _ hvalues).trans (Table.ofList_of_nodup (names_passedOn nodup _ _)))
  exact congrArg (Forest.element () · .nil .nil) htag

/-- The attributes that a tag passes on, written in front of a class and read again: each is there
once, in its place, with its value, in which each quote has become a reference to one. -/
theorem read_carried (names : ∀ a ∈ t.attributes, Markup.isSmallName a.1 = true)
    (values : ∀ a ∈ t.attributes, (∀ words, a.2 ≠ .words words) ∧ '&' ∉ a.2.shown.toList)
    (nodup : (t.attributes.map (·.1)).Nodup) :
    ∃ attributes, carried t = .ok attributes ∧
      Format.standard.read
          ("<table" ++ Template.writeAttributes attributes ++ " class=\"c\"></table>") =
        .ok (.element ()
          ⟨"table", passedOn t (fun s => .text (quotesProtected s)) ++ [("class", .text "c")], false⟩
          .nil .nil) := by
  refine ⟨_, carried_eq_passedOn fun a ha => (values a ha).1, ?_⟩
  rw [← write_carriedTable]
  have hempty : (.nil : Forest Unit).ReadsAs .nil := fun g hg _ => .nil hg
  obtain ⟨new, hread, hnew⟩ := (sealed_carriedTable names).read hempty none
  rw [forest_carriedTable (fun a ha => (values a ha).2) nodup] at hnew
  have hfill : (carriedTable t).fill (String.ofList (Markup.bareStyle.write none
      (.nil : Forest Unit))) = carriedTable t := rfl
  rw [hfill] at hread
  rw [hread]
  cases new with
  | nil => cases hnew
  | leaf => cases hnew
  | element mark tag children next =>
    simp only [Forest.bare, Forest.element.injEq] at hnew
    obtain ⟨-, rfl, hchildren, hnext⟩ := hnew
    rw [Forest.eq_nil_of_bare hchildren, Forest.eq_nil_of_bare hnext]
    rfl

/-- A row with signs in its values, and two attributes that are used up. -/
def signedRow : Tag :=
  ⟨"row", [("class", .text "wide"), ("title", .text "a > \"b\"\n</table>"), ("data-x.y", .text ""),
    ("id", .text "first"), ("xml:lang", .text "'=/")], false⟩

theorem read_carried_signedRow :
    (∀ a ∈ signedRow.attributes, Markup.isSmallName a.1 = true) ∧
      (∀ a ∈ signedRow.attributes, (∀ words, a.2 ≠ .words words) ∧ '&' ∉ a.2.shown.toList) ∧
      (signedRow.attributes.map (·.1)).Nodup ∧
      ∃ attributes, carried signedRow = .ok attributes ∧
        Format.standard.read
            ("<table" ++ Template.writeAttributes attributes ++ " class=\"c\"></table>") =
          .ok (.element ()
            ⟨"table", [("title", .text "a > \ue000quot;b\ue000quot;\n</table>"),
              ("data-x.y", .text ""), ("xml:lang", .text "'=/"), ("class", .text "c")], false⟩
            .nil .nil) := by
  have hnames : ∀ a ∈ signedRow.attributes, Markup.isSmallName a.1 = true := by decide
  have hvalues : ∀ a ∈ signedRow.attributes,
      (∀ words, a.2 ≠ .words words) ∧ '&' ∉ a.2.shown.toList := by
    simp [signedRow, AttributeValue.shown]
  have hnodup : (signedRow.attributes.map (·.1)).Nodup := by decide
  exact ⟨hnames, hvalues, hnodup, read_carried hnames hvalues hnodup⟩

end Expansion

end Mailgrid
