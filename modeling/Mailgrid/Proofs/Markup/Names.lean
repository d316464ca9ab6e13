import Mailgrid.Proofs.Markup.Brackets
import Mailgrid.Proofs.Markup.Growth
import Mailgrid.Proofs.Markup.Plain

/-!
# Names of attributes that are read

The reader takes up to a blank or a sign for the name of an attribute, and gives
it in lower case. That puts no blank and no sign into it, so the name is read
again as it is.
-/

namespace Mailgrid.Markup

open Mailgrid.Text (IsLetterly isBlank lower lowerString)

/-- A name as the reader gives it, which is read again as it is but for its ampersands. -/
structure IsKeptName (name : String) : Prop where
  isName : isAttributeName name = true
  lower : lowerString name = name

/-- A name as the reader gives it, which is read again as it is. -/
structure IsReadName (name : String) : Prop where
  isName : isAttributeName name = true
  lower : lowerString name = name
  ampersand : '&' ∉ name.toList

-- ---------------------------------------------------------------------------
-- Names in lower case

variable {c d : Char} {s : List Char}

theorem ne_of_isLetterly (h : IsLetterly d) (hc : c.toNat < 0x80) (hsign : c.isLower = false) :
    d ≠ c := by
  rintro rfl
  exact Bool.false_ne_true (hsign.symm.trans (h.2 hc))

theorem isAttributeChar_of_isLetterly (h : IsLetterly d) : OpenTag.isAttributeChar d = true := by
  have hslash : d ≠ '/' := ne_of_isLetterly h (by decide) rfl
  have hequals : d ≠ '=' := ne_of_isLetterly h (by decide) rfl
  have hclose : d ≠ '>' := ne_of_isLetterly h (by decide) rfl
  simp [OpenTag.isAttributeChar, h.1, hslash, hequals, hclose]

theorem isAttributeName_lower (h : isAttributeName (String.ofList s) = true) :
    isAttributeName (String.ofList (lower s)) = true := by
  obtain ⟨c, rest, hs, hblank, hslash, hclose, hrest⟩ := exists_of_isAttributeName h
  rw [String.toList_ofList] at hs
  subst hs
  have hbehind : ∀ d ∈ Text.lowerAfter [c] rest, OpenTag.isAttributeChar d = true := by
    intro d hd
    rcases (Text.of_mem_lowerAfter hd).2 with hd | hd
    · exact hrest d hd
    · exact isAttributeChar_of_isLetterly hd
  rw [isAttributeName, String.toList_ofList, lower, Text.lowerAfter]
  rcases Text.lowerAt_cases [] c rest with ⟨d, hat, -, hd⟩ | hat
  · rw [hat]
    simp only [List.singleton_append, Bool.and_eq_true, List.all_eq_true]
    refine ⟨?_, hbehind⟩
    rcases hd with rfl | hd
    · simp [hblank, hslash, hclose]
    · have hslash : d ≠ '/' := ne_of_isLetterly hd (by decide) rfl
      have hclose : d ≠ '>' := ne_of_isLetterly hd (by decide) rfl
      simp [hd.1, hslash, hclose]
  · rw [hat]
    simp only [List.cons_append, List.nil_append, Bool.and_eq_true, List.all_eq_true]
    exact ⟨rfl, List.forall_mem_cons.mpr ⟨rfl, hbehind⟩⟩

theorem isKeptName_lower (h : isAttributeName (String.ofList s) = true) :
    IsKeptName (String.ofList (lower s)) := by
  refine ⟨isAttributeName_lower h, ?_⟩
  rw [lowerString, String.toList_ofList, Text.lower_lower]

theorem isReadName_lower (h : isAttributeName (String.ofList s) = true) (hamp : '&' ∉ s) :
    IsReadName (String.ofList (lower s)) := by
  obtain ⟨hname, hlower⟩ := isKeptName_lower h
  refine ⟨hname, hlower, ?_⟩
  rw [String.toList_ofList]
  intro hm
  rcases (Text.of_mem_lower hm).2 with hm | hm
  · exact hamp hm
  · exact ne_of_isLetterly hm (by decide) rfl rfl

-- ---------------------------------------------------------------------------
-- Tokens

namespace Token

/-- The tag of a start tag has this property. -/
def HasTag (Q : OpenTag → Prop) : Token → Prop
  | .startTag tag => Q tag
  | _ => True

/-- The attributes of a start tag have names with this property. -/
def HasNames (P : String → Prop) : Token → Prop
  | .startTag tag => ∀ a ∈ tag.attributes, P a.1
  | _ => True

variable {P : String → Prop} {Q : OpenTag → Prop} {tokens : List Token}
  {literal : Option (List Char)} {rest : List Char}

theorem hasNames_iff {t : Token} :
    t.HasNames P ↔ t.HasTag fun tag => ∀ a ∈ tag.attributes, P a.1 := by
  cases t <;> exact Iff.rfl

theorem hasTag_closedBy (inner : List Char) : ∀ t ∈ closedBy inner, t.HasTag Q := by
  unfold closedBy
  extract_lets start
  repeat' split
  all_goals simp [HasTag]

theorem hasTag_upToClose {token : List Char → List Token}
    (ht : ∀ inner, ∀ t ∈ token inner, t.HasTag Q)
    (h : upToClose token s = .read tokens literal rest) : ∀ t ∈ tokens, t.HasTag Q := by
  unfold upToClose at h
  split at h
  · cases h
    exact ht _
  · cases h

theorem hasTag_declarationAt (h : declarationAt s = .read tokens literal rest) :
    ∀ t ∈ tokens, t.HasTag Q := by
  unfold declarationAt at h
  split at h
  · unfold commentAt at h
    split at h
    · cases h
      exact List.forall_mem_singleton.mpr trivial
    · cases h
  · unfold sectionAt at h
    repeat' split at h
    all_goals cases h
    exact List.forall_mem_singleton.mpr trivial
  · refine hasTag_upToClose (fun inner => List.forall_mem_singleton.mpr ?_) h
    split <;> trivial

theorem hasTag_constructAt (hread : ∀ {tag after}, OpenTag.read s = .complete tag after → Q tag)
    (h : constructAt s = .read tokens literal rest) : ∀ t ∈ tokens, t.HasTag Q := by
  unfold constructAt at h
  split at h
  · exact hasTag_upToClose hasTag_closedBy h
  · exact hasTag_declarationAt h
  · refine hasTag_upToClose ?_ h
    intro inner
    exact List.forall_mem_singleton.mpr trivial
  · cases h
  · split at h
    · unfold startTagAt at h
      split at h
      · rename_i he
        cases h
        exact List.forall_mem_singleton.mpr (hread he)
      · cases h
      · cases h
      · cases h
        exact List.forall_mem_singleton.mpr trivial
    · cases h
      exact List.forall_mem_singleton.mpr trivial

theorem hasTag_numberAt? {token : Token} (h : numberAt? s = some (token, rest)) :
    token.HasTag Q := by
  unfold numberAt? at h
  split at h <;>
  · obtain ⟨⟨digits, after⟩, -, he⟩ := Option.map_eq_some_iff.mp h
    cases he
    first
      | exact trivial
      | unfold decimalToken
        split <;> exact trivial

theorem hasTag_referenceAt {closing : Bool} {token : Token}
    (h : referenceAt closing s = .complete token rest) : token.HasTag Q := by
  unfold referenceAt at h
  split at h
  · split at h
    · rename_i hn
      cases h
      exact hasTag_numberAt? hn
    · split at h <;> cases h
  · split at h
    · split at h
      · cases h
        exact trivial
      · split at h <;> cases h
    · cases h
      exact trivial

/-- What is so of every tag that can be read is so of all start tags of a text. -/
theorem hasTag_scan (hread : ∀ {t tag after}, OpenTag.read t = .complete tag after → Q tag)
    (closing : Bool) (literal : Option (List Char)) (s : List Char) :
    ∀ t ∈ scan closing literal s, t.HasTag Q := by
  fun_induction scan closing literal s with
  | case1 => exact List.forall_mem_nil _
  | case2 closing s name before spelled rest _ _ ih =>
    exact List.forall_mem_append.mpr ⟨forall_textBefore trivial,
      List.forall_mem_cons.mpr ⟨trivial, ih⟩⟩
  | case3 _ _ _ _ _ _ _ _ ih => exact List.forall_mem_cons.mpr ⟨trivial, ih⟩
  | case4 => exact List.forall_mem_nil _
  | case5 closing s tokens literal rest hc ih =>
    exact List.forall_mem_append.mpr ⟨hasTag_constructAt hread hc, ih⟩
  | case6 => exact List.forall_mem_singleton.mpr trivial
  | case7 s hc ih => exact List.forall_mem_cons.mpr ⟨trivial, ih⟩
  | case8 closing s hc _ ih => exact ih
  | case9 closing s token rest hr ih =>
    exact List.forall_mem_cons.mpr ⟨hasTag_referenceAt hr, ih⟩
  | case10 =>
    exact List.forall_mem_append.mpr ⟨forall_textBefore trivial, forall_textBefore trivial⟩
  | case11 _ _ _ _ _ _ ih =>
    exact List.forall_mem_append.mpr ⟨forall_textBefore trivial, ih⟩
  | case12 closing c s _ _ ih => exact List.forall_mem_cons.mpr ⟨trivial, ih⟩

theorem names_of_read (hP : ∀ name ⊆ s, isAttributeName (String.ofList name) = true →
    P (String.ofList (lower name))) {tag : OpenTag} (h : OpenTag.read s = .complete tag rest) :
    ∀ a ∈ tag.attributes, P a.1 := by
  have hread := OpenTag.of_read s
  rw [h] at hread
  obtain ⟨-, name, found, -, hfound, -, hattributes⟩ := hread
  rw [hattributes, List.forall_mem_map]
  exact fun a ha => hP _ (hfound a ha).name (hfound a ha).isName

theorem hasNames_ofText (hamp : '&' ∉ s) : ∀ t ∈ ofText s, t.HasNames IsReadName := by
  refine forall_scan hamp (fun _ _ => trivial) (fun _ => trivial) ?_ (fun _ _ _ _ => trivial) false
    none (List.Subset.refl s)
  intro t ht tokens literal rest hread k hk
  refine hasNames_iff.mpr (hasTag_constructAt (names_of_read fun name hname hn => ?_) hread k hk)
  exact isReadName_lower hn fun hm => hamp (ht (hname hm))

theorem hasNames_scan (closing : Bool) (literal : Option (List Char)) (s : List Char) :
    ∀ t ∈ scan closing literal s, t.HasNames IsKeptName := by
  intro t ht
  refine hasNames_iff.mpr (hasTag_scan ?_ closing literal s t ht)
  exact names_of_read fun name _ hn => isKeptName_lower hn

end Token

-- ---------------------------------------------------------------------------
-- Tags

/-- A tag as the reader gives it: texts, under names that are read again as they are, each name
once. -/
structure Tag.IsParsed (t : Tag) : Prop where
  attributes : ∀ a ∈ t.attributes, (∃ s, a.2 = .text s) ∧ IsReadName a.1
  nodup : (t.attributes.map (·.1)).Nodup

theorem isReadName_of_isPlainName {name : String} (h : isPlainName name = true) :
    IsReadName name := by
  obtain ⟨hlegible, hlower⟩ := of_isPlainName h
  exact ⟨isAttributeName_of_isLegible hlegible, hlower,
    not_mem_of_isLegible hlegible isNameLetter_ampersand⟩

theorem isParsed_of_isPlainName {t : Tag}
    (h : ∀ a ∈ t.attributes, (∃ s, a.2 = .text s) ∧ isPlainName a.1 = true)
    (hnodup : (t.attributes.map (·.1)).Nodup) : t.IsParsed :=
  ⟨fun a ha => ⟨(h a ha).1, isReadName_of_isPlainName (h a ha).2⟩, hnodup⟩

/-- A tag as the reader gives it where it may decode references: texts, under names that are read
again as they are but for their ampersands, each name once. -/
structure Tag.IsRead (t : Tag) : Prop where
  attributes : ∀ a ∈ t.attributes, (∃ s, a.2 = .text s) ∧ IsKeptName a.1
  nodup : (t.attributes.map (·.1)).Nodup

theorem Tag.IsParsed.isRead {t : Tag} (h : t.IsParsed) : t.IsRead :=
  ⟨fun a ha => ⟨(h.attributes a ha).1, (h.attributes a ha).2.isName, (h.attributes a ha).2.lower⟩,
    h.nodup⟩

/-- The names of start tags are those of the attributes that are read, each once, but for the
element that may name a character set. -/
theorem names_of_parse {P : String → Prop} (hnames : ∀ t ∈ Token.ofText s, t.HasNames P)
    {f : Forest Unit} (h : Forest.parse Grammar.standard s = .ok f) :
    ∀ e ∈ f.descendants, e.tag.name ≠ "meta" →
      (∀ a ∈ e.tag.attributes, (∃ s, a.2 = .text s) ∧ P a.1) ∧
        (e.tag.attributes.map (·.1)).Nodup := by
  intro e he hmeta
  obtain ⟨written, hw, attributes, hcollect, hread⟩ := exists_startTag_of_parse h e he
  have hwritten := hnames _ hw
  have hname : written.name ≠ "meta" := by
    rw [← (of_tag_read hread).1]
    exact hmeta
  have hstandard : Grammar.standard.repeated = .lastCounts := rfl
  rw [hstandard, collect_standard] at hcollect
  cases hcollect
  rw [read_standard hname] at hread
  obtain ⟨hnodup, hmem⟩ := Table.ofList_spec
    (written.attributes.map fun pair => (pair.1, AttributeValue.text pair.2))
  rw [← Except.ok.inj hread]
  refine ⟨fun a ha => ?_, hnodup⟩
  obtain ⟨pair, hpair, rfl⟩ := List.mem_map.mp (hmem a ha)
  exact ⟨⟨pair.2, rfl⟩, hwritten pair hpair⟩

/-- All that is read is parsed, but for the element that may name a character set. -/
theorem isParsed_of_parse (hamp : '&' ∉ s) {f : Forest Unit}
    (h : Forest.parse Grammar.standard s = .ok f) :
    ∀ e ∈ f.descendants, e.tag.name ≠ "meta" → e.tag.IsParsed := by
  intro e he hmeta
  obtain ⟨hattributes, hnodup⟩ := names_of_parse (Token.hasNames_ofText hamp) h e he hmeta
  exact ⟨hattributes, hnodup⟩

theorem isRead_of_parse {f : Forest Unit} (h : Forest.parse Grammar.standard s = .ok f) :
    ∀ e ∈ f.descendants, e.tag.name ≠ "meta" → e.tag.IsRead := by
  intro e he hmeta
  obtain ⟨hattributes, hnodup⟩ := names_of_parse (Token.hasNames_scan false none s) h e he hmeta
  exact ⟨hattributes, hnodup⟩

end Mailgrid.Markup
