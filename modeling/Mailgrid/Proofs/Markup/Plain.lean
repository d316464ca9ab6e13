import Mailgrid.Proofs.Markup.Reading
import Mathlib.Data.List.Nodup

/-!
# Plain forests

Forests of elements and texts that are the same when they are written and read
again, but for marks and the kinds of their texts.
-/

namespace Mailgrid.Markup

-- ---------------------------------------------------------------------------
-- Plain tags and texts

/-- Small letters, digits and dashes of ASCII, a letter first. -/
def isPlainName (name : String) : Bool :=
  name.toList.head?.any Char.isLower &&
    name.toList.all fun c => c.isLower || c.isDigit || c == '-'

/-- Legible, in lower case, with each attribute once, and void as the standard grammar says. -/
def Tag.Plain (t : Tag) : Prop :=
  isPlainName t.name = true ∧ reservedNames.contains t.name = false ∧
    (∀ a ∈ t.attributes, isPlainName a.1 = true ∧ isLegibleValue a.2 = true) ∧
    (t.attributes.map (·.1)).Nodup ∧ t.void = Grammar.standard.void.contains t.name

/-- Plain, with whichever quotes. -/
def Tag.Verbatim (t : Tag) : Prop :=
  isPlainName t.name = true ∧ reservedNames.contains t.name = false ∧
    (∀ a ∈ t.attributes, isPlainName a.1 = true ∧ isVerbatimValue a.2 = true) ∧
    (t.attributes.map (·.1)).Nodup ∧ t.void = Grammar.standard.void.contains t.name

/-- Not empty and without markup; of blanks alone a single space or line break. -/
def PlainText (content : String) : Prop :=
  content ≠ "" ∧ content.toList.all Token.isPlain = true ∧
    (content.toList.all Growth.isSpace = true → content = " " ∨ content = "\n")

instance (t : Tag) : Decidable t.Plain :=
  inferInstanceAs (Decidable (_ ∧ _ ∧ _ ∧ _ ∧ _))

instance (t : Tag) : Decidable t.Verbatim :=
  inferInstanceAs (Decidable (_ ∧ _ ∧ _ ∧ _ ∧ _))

instance (content : String) : Decidable (PlainText content) :=
  inferInstanceAs (Decidable (_ ∧ _ ∧ (_ → _ ∨ _)))

def LeafKind.bare : LeafKind → LeafKind
  | .text _ => .text .plain
  | kind => kind

namespace Forest

def startsWithText : Forest α → Bool
  | leaf _ (.text _) _ _ => true
  | _ => false

/-- Elements with plain tags, void ones without content, and plain texts, no two in a row. -/
def Plain : Forest α → Prop
  | nil => True
  | leaf _ (.text _) content next =>
    PlainText content ∧ next.startsWithText = false ∧ next.Plain
  | leaf _ _ _ _ => False
  | element _ tag children next =>
    tag.Plain ∧ (tag.void = true → children.isNil = true) ∧ children.Plain ∧ next.Plain

instance decidablePlain : (f : Forest α) → Decidable f.Plain
  | nil => .isTrue trivial
  | leaf _ (.text _) _ next =>
    have := decidablePlain next
    inferInstanceAs (Decidable (_ ∧ _ ∧ _))
  | leaf _ .comment _ _ | leaf _ .cdata _ _ | leaf _ .instruction _ _ | leaf _ .declaration _ _
  | leaf _ .docType _ _ | leaf _ .leadingDocType _ _ => .isFalse id
  | element _ _ children next =>
    have := decidablePlain children
    have := decidablePlain next
    inferInstanceAs (Decidable (_ ∧ (_ → _) ∧ _ ∧ _))

/-- Elements with such tags, void ones without content, and texts and comments that can be written
and read again, whatever else reading makes of them. -/
def Clear (P : Tag → Prop) : Forest α → Prop
  | nil => True
  | leaf _ (.text _) content next => content.toList.all Token.isPlain = true ∧ next.Clear P
  | leaf _ .comment content next =>
    ('-' ∉ content.toList ∧ '&' ∉ content.toList) ∧ next.Clear P
  | leaf _ _ _ _ => False
  | element _ tag children next =>
    P tag ∧ (tag.void = true → children.isNil = true) ∧ children.Clear P ∧ next.Clear P

instance decidableClear (P : Tag → Prop) [DecidablePred P] : (f : Forest α) → Decidable (f.Clear P)
  | nil => .isTrue trivial
  | leaf _ (.text _) _ next | leaf _ .comment _ next =>
    have := decidableClear P next
    inferInstanceAs (Decidable (_ ∧ _))
  | leaf _ .cdata _ _ | leaf _ .instruction _ _ | leaf _ .declaration _ _ | leaf _ .docType _ _
  | leaf _ .leadingDocType _ _ => .isFalse id
  | element _ _ children next =>
    have := decidableClear P children
    have := decidableClear P next
    inferInstanceAs (Decidable (_ ∧ (_ → _) ∧ _ ∧ _))

/-- A forest without its marks, and all texts of one kind. -/
def bare : Forest α → Forest Unit
  | nil => nil
  | leaf _ kind content next => leaf () kind.bare content next.bare
  | element _ tag children next => element () tag children.bare next.bare

end Forest

-- ---------------------------------------------------------------------------
-- Names and tags are read as they are

theorem of_isPlainNameChar {c : Char} (h : (c.isLower || c.isDigit || c == '-') = true) :
    isNameLetter c = true ∧ c.toLower = c := by
  have hletter : isNameLetter c = true := by
    simp only [Bool.or_eq_true] at h
    change (((c.isUpper || c.isLower) || c.isDigit) || c == '-') = true
    rcases h with (h | h) | h
    · rw [h, Bool.or_true, Bool.true_or, Bool.true_or]
    · rw [h, Bool.or_true, Bool.true_or]
    · rw [h, Bool.or_true]
  refine ⟨hletter, ?_⟩
  exact of_ascii (P := fun c => (c.isLower || c.isDigit || c == '-') = true → c.toLower = c)
    (by decide) (ascii_of_isNameLetter hletter) h

theorem of_isPlainName {name : String} (h : isPlainName name = true) :
    isLegible name = true ∧ Text.lowerString name = name := by
  simp only [isPlainName, Bool.and_eq_true, List.all_eq_true] at h
  obtain ⟨hstart, hall⟩ := h
  refine ⟨?_, ?_⟩
  · rw [isLegible, Bool.and_eq_true, List.all_eq_true]
    refine ⟨?_, fun c hc => (of_isPlainNameChar (hall c hc)).1⟩
    cases hn : name.toList with
    | nil => simp [hn] at hstart
    | cons c rest =>
      rw [hn] at hstart
      simp only [List.head?_cons, Option.any_some] at hstart
      exact (Bool.or_eq_true _ _).mpr (.inr hstart)
  · have hascii : ∀ c ∈ name.toList, c.toNat < 0x80 := fun c hc =>
      ascii_of_isNameLetter (of_isPlainNameChar (hall c hc)).1
    have hmap : name.toList.map Char.toLower = name.toList :=
      (List.map_congr_left fun c hc => (of_isPlainNameChar (hall c hc)).2).trans (List.map_id' _)
    rw [Text.lowerString, Text.lower_of_ascii hascii, hmap, String.ofList_toList]

theorem Tag.Plain.isLegible {t : Tag} (h : t.Plain) : t.isLegible = true := by
  obtain ⟨hname, hreserved, hattributes, -⟩ := h
  obtain ⟨hn, hl⟩ := of_isPlainName hname
  rw [Tag.isLegible, hn, hl, hreserved, List.all_eq_true.mpr]
  · rfl
  · rintro ⟨name, value⟩ ha
    obtain ⟨hn, hv⟩ := hattributes _ ha
    simp only [(of_isPlainName hn).1, hv, Bool.and_self]

theorem Tag.Plain.verbatim {t : Tag} (h : t.Plain) : t.Verbatim := by
  obtain ⟨hname, hreserved, hattributes, hnodup, hvoid⟩ := h
  exact ⟨hname, hreserved,
    fun a ha => ⟨(hattributes a ha).1, isVerbatimValue_of_isLegibleValue (hattributes a ha).2⟩,
    hnodup, hvoid⟩

theorem Tag.Verbatim.isVerbatim {t : Tag} (h : t.Verbatim) : t.isVerbatim = true := by
  obtain ⟨hname, hreserved, hattributes, -⟩ := h
  obtain ⟨hn, hl⟩ := of_isPlainName hname
  rw [Tag.isVerbatim, Tag.isWritten, hn, hl, hreserved, List.all_eq_true.mpr]
  · rfl
  · rintro ⟨name, value⟩ ha
    obtain ⟨hn, hv⟩ := hattributes _ ha
    simp only [isAttributeName_of_isLegible (of_isPlainName hn).1, hv, Bool.and_self]

theorem Tag.Verbatim.reread {t : Tag} (h : t.Verbatim) : t.reread = t := by
  obtain ⟨hname, -, hattributes, hnodup, hvoid⟩ := h
  have hmap : (t.attributes.map fun a =>
      (Text.lowerString a.1, AttributeValue.text a.2.shown)) = t.attributes := by
    refine (List.map_congr_left ?_).trans (List.map_id' _)
    rintro ⟨name, value⟩ ha
    obtain ⟨hn, hv⟩ := hattributes _ ha
    simp only [(of_isPlainName hn).2]
    cases value with
    | text => rfl
    | _ => cases hv
  rw [Tag.reread, hmap, (of_isPlainName hname).2, Table.ofList_of_nodup hnodup, ← hvoid]

theorem Tag.Plain.reread {t : Tag} (h : t.Plain) : t.reread = t :=
  h.verbatim.reread

-- ---------------------------------------------------------------------------
-- Forests are read as they are

theorem settled_eq_self {content : String}
    (h : content.toList.all Growth.isSpace = true → content = " " ∨ content = "\n")
    (keeps : Bool) : Growth.settled keeps content = content := by
  unfold Growth.settled
  split
  · rename_i hs
    simp only [Bool.and_eq_true, Bool.not_eq_true'] at hs
    rcases h hs.2 with rfl | rfl
    · rfl
    · rfl
  · rfl

theorem PlainText.settled {content : String} (h : PlainText content) (keeps : Bool) :
    Growth.settled keeps content = content :=
  settled_eq_self h.2.2 keeps

namespace Forest

theorem Clear.isLegible {P : Tag → Prop} (hP : ∀ t, P t → t.Plain) {f : Forest α}
    (h : f.Clear P) : f.isLegible = true := by
  induction f with
  | nil => rfl
  | leaf m kind content next ih =>
    cases kind with
    | text kind => rw [Forest.isLegible, ih h.2, Bool.and_true]; exact h.1
    | comment =>
      obtain ⟨⟨hdash, -⟩, hnext⟩ := h
      rw [Forest.isLegible, ih hnext, Bool.and_true]
      simpa [isLegibleLeaf] using hdash
    | _ => exact absurd h id
  | element m tag children next ihc ih =>
    obtain ⟨hp, hhollow, hchildren, hnext⟩ := h
    have htag := hP tag hp
    rw [Forest.isLegible, htag.isLegible, htag.reread, Bool.or_self, ihc hchildren, ih hnext]
    cases hv : tag.void with
    | false => rfl
    | true => rw [hhollow hv, Bool.or_true]; rfl

theorem Plain.clear {f : Forest α} (h : f.Plain) : f.Clear Tag.Plain := by
  induction f with
  | nil => trivial
  | leaf m kind content next ih =>
    cases kind with
    | text kind => exact ⟨h.1.2.1, ih h.2.2⟩
    | _ => exact absurd h id
  | element m tag children next ihc ih =>
    obtain ⟨htag, hhollow, hchildren, hnext⟩ := h
    exact ⟨htag, hhollow, ihc hchildren, ih hnext⟩

theorem Plain.isLegible {f : Forest α} (h : f.Plain) : f.isLegible = true :=
  h.clear.isLegible fun _ => id

/-- A text in front of a forest. -/
def lead (content : String) (f : Forest Unit) : Forest Unit :=
  if content = "" then f else leaf () (.text .plain) content f

theorem bare_textNode {opened : List String} {content : String}
    (h : content = "" ∨ PlainText content) (next : Forest Unit) :
    (textNode opened content next).bare = lead content next.bare := by
  unfold textNode lead
  split
  · rfl
  · rename_i hne
    rcases h with h | h
    · exact absurd h hne
    · rw [h.settled]
      rfl

/-- Texts that are plain, no two in a row, and comments that are not blank. -/
def Steady : Forest α → Prop
  | nil => True
  | leaf _ (.text _) content next =>
    PlainText content ∧ next.startsWithText = false ∧ next.Steady
  | leaf _ .comment content next => content.toList.all Growth.isSpace = false ∧ next.Steady
  | leaf _ _ _ _ => False
  | element _ _ children next => children.Steady ∧ next.Steady

instance decidableSteady : (f : Forest α) → Decidable f.Steady
  | nil => .isTrue trivial
  | leaf _ (.text _) _ next =>
    have := decidableSteady next
    inferInstanceAs (Decidable (_ ∧ _ ∧ _))
  | leaf _ .comment _ next =>
    have := decidableSteady next
    inferInstanceAs (Decidable (_ ∧ _))
  | leaf _ .cdata _ _ | leaf _ .instruction _ _ | leaf _ .declaration _ _ | leaf _ .docType _ _
  | leaf _ .leadingDocType _ _ => .isFalse id
  | element _ _ children next =>
    have := decidableSteady children
    have := decidableSteady next
    inferInstanceAs (Decidable (_ ∧ _))

/-- A steady forest is read as it is but for its tags, behind a plain text if it does not start with
one. -/
theorem Steady.bare_reread_behind {f : Forest α} (h : f.Steady) (opened : List String)
    {content : String} (hc : content = "" ∨ (PlainText content ∧ f.startsWithText = false)) :
    (f.reread opened content).bare = lead content (f.mapTags Tag.reread).bare := by
  induction f generalizing opened content with
  | nil => exact bare_textNode (hc.imp id And.left) nil
  | leaf m kind text next ih =>
    cases kind with
    | text kind =>
      obtain ⟨htext, hapart, hnext⟩ := h
      rcases hc with rfl | ⟨-, hs⟩
      · rw [reread, String.empty_append, ih hnext opened (.inr ⟨htext, hapart⟩), lead,
          if_neg htext.1]
        rfl
      · cases hs
    | comment =>
      obtain ⟨hblank, hnext⟩ := h
      have hsettled (keeps : Bool) : Growth.settled keeps text = text := by
        rw [Growth.settled, hblank, Bool.and_false]
        rfl
      rw [reread, bare_textNode (hc.imp id And.left), hsettled, bare, ih hnext _ (.inl rfl)]
      · rfl
      · intro _ hkind
        cases hkind
    | _ => exact absurd h id
  | element m tag children next ihc ih =>
    obtain ⟨hchildren, hnext⟩ := h
    rw [reread, bare_textNode (hc.imp id And.left), bare, ihc hchildren _ (.inl rfl),
      ih hnext _ (.inl rfl)]
    rfl

theorem Plain.steady {f : Forest α} (h : f.Plain) : f.Steady := by
  induction f with
  | nil => trivial
  | leaf m kind text next ih =>
    cases kind with
    | text kind => exact ⟨h.1, h.2.1, ih h.2.2⟩
    | _ => exact absurd h id
  | element m tag children next ihc ih => exact ⟨ihc h.2.2.1, ih h.2.2.2⟩

theorem Plain.mapTags_reread {f : Forest α} (h : f.Plain) : f.mapTags Tag.reread = f := by
  induction f with
  | nil => rfl
  | leaf m kind text next ih =>
    cases kind with
    | text kind => rw [mapTags, ih h.2.2]
    | _ => exact absurd h id
  | element m tag children next ihc ih =>
    obtain ⟨htag, -, hchildren, hnext⟩ := h
    rw [mapTags, htag.reread, ihc hchildren, ih hnext]

theorem Plain.bare_reread_behind {f : Forest α} (h : f.Plain) (opened : List String)
    {content : String}
    (hc : content = "" ∨ (PlainText content ∧ f.startsWithText = false)) :
    (f.reread opened content).bare = lead content f.bare := by
  rw [h.steady.bare_reread_behind opened hc, h.mapTags_reread]

end Forest

-- ---------------------------------------------------------------------------
-- No ampersand is written

theorem not_mem_of_isLegible {name : String} (h : isLegible name = true) {c : Char}
    (hc : isNameLetter c = false) : c ∉ name.toList := by
  simp only [isLegible, Bool.and_eq_true, List.all_eq_true] at h
  intro hm
  rw [h.2 c hm] at hc
  cases hc

theorem isNameLetter_ampersand : isNameLetter '&' = false := rfl

theorem Tag.not_mem_startTag_of_isVerbatim {t : Tag} (h : t.isVerbatim = true)
    (hnames : ∀ a ∈ t.attributes, '&' ∉ a.1.toList) {ending : List Char} (he : '&' ∉ ending) :
    '&' ∉ bareStyle.startTag t ending := by
  have hname := Tag.isLegible_name h
  simp only [Tag.isVerbatim, Tag.isWritten, isVerbatimValue, Bool.and_eq_true, Bool.not_eq_true',
    List.contains_eq_mem, decide_eq_false_iff_not, List.all_eq_true] at h
  have hlist : '&' ∉ bareStyle.attributes t.attributes := by
    intro hm
    obtain ⟨⟨name, value⟩, ha, hm⟩ := List.mem_flatMap.mp hm
    obtain ⟨-, henclosed, hv⟩ := h.2 _ ha
    obtain ⟨value, rfl, hquotes⟩ := isEnclosedValue_cases henclosed
    have hquote : '&' ≠ quoteOf value.toList := by
      unfold quoteOf
      split <;> decide
    have htext := OpenTag.attributeText_enclosed name value hquotes []
    rw [List.append_nil] at htext
    rw [htext] at hm
    simp [hnames _ ha, hquote, show '&' ∉ value.toList from hv] at hm
  simp [Style.startTag, not_mem_of_isLegible hname isNameLetter_ampersand, hlist, he]

theorem Tag.not_mem_startTag {t : Tag} (h : t.isLegible = true) {ending : List Char}
    (he : '&' ∉ ending) : '&' ∉ bareStyle.startTag t ending := by
  refine Tag.not_mem_startTag_of_isVerbatim
    (Tag.isVerbatim_of_isReadable (Tag.isReadable_of_isLegible h)) (fun a ha => ?_) he
  simp only [Tag.isLegible, Bool.and_eq_true, List.all_eq_true] at h
  exact not_mem_of_isLegible (h.2 a ha).1 isNameLetter_ampersand

theorem Tag.not_mem_endTag_of_isVerbatim {t : Tag} (h : t.isVerbatim = true) :
    '&' ∉ Style.endTag t := by
  simp [Style.endTag, not_mem_of_isLegible (Tag.isLegible_name h) isNameLetter_ampersand]

theorem Tag.not_mem_endTag {t : Tag} (h : t.isLegible = true) : '&' ∉ Style.endTag t :=
  Tag.not_mem_endTag_of_isVerbatim (Tag.isVerbatim_of_isReadable (Tag.isReadable_of_isLegible h))

theorem Tag.Verbatim.not_mem_startTag {t : Tag} (h : t.Verbatim) {ending : List Char}
    (he : '&' ∉ ending) : '&' ∉ bareStyle.startTag t ending :=
  Tag.not_mem_startTag_of_isVerbatim h.isVerbatim
    (fun a ha => not_mem_of_isLegible (of_isPlainName (h.2.2.1 a ha).1).1 isNameLetter_ampersand) he

namespace Forest

theorem isNil_bare (f : Forest α) : f.bare.isNil = f.isNil := by
  cases f <;> rfl

theorem write_bare (f : Forest α) (parent other : Option String) :
    bareStyle.write parent f.bare = bareStyle.write other f := by
  induction f generalizing parent other with
  | nil => rfl
  | leaf m kind content next ih =>
    rw [bare, Style.write, Style.write, ih parent other]
    cases kind with
    | text => rw [LeafKind.bare, Style.leaf_text, Style.leaf_text]
    | _ => rfl
  | element m tag children next ihc ih =>
    cases hn : children.isNil with
    | false =>
      rw [bare, Style.write_full other m tag hn,
        Style.write_full parent () tag (by rw [isNil_bare, hn]), ih, ihc]
    | true =>
      cases children with
      | nil => simp only [bare, Style.write, ih parent other]
      | _ => cases hn

theorem startsWithText_bare (f : Forest α) : f.bare.startsWithText = f.startsWithText := by
  cases f with
  | nil => rfl
  | leaf m kind content next => cases kind <;> rfl
  | element => rfl

theorem bare_bare (f : Forest α) : f.bare.bare = f.bare := by
  induction f with
  | nil => rfl
  | leaf m kind content next ih =>
    rw [bare, bare, ih]
    cases kind <;> rfl
  | element m tag children next ihc ih => rw [bare, bare, ihc, ih]

theorem plain_bare {f : Forest α} : f.bare.Plain ↔ f.Plain := by
  induction f with
  | nil => exact Iff.rfl
  | leaf m kind content next ih =>
    cases kind with
    | text kind => rw [bare, LeafKind.bare, Plain, Plain, startsWithText_bare, ih]
    | _ => exact Iff.rfl
  | element m tag children next ihc ih => rw [bare, Plain, Plain, isNil_bare, ihc, ih]

theorem Clear.not_mem_write {P : Tag → Prop} (hP : ∀ t, P t → t.Verbatim) {f : Forest α}
    (h : f.Clear P) (parent : Option String) : '&' ∉ bareStyle.write parent f := by
  induction f generalizing parent with
  | nil => exact List.not_mem_nil
  | leaf m kind content next ih =>
    cases kind with
    | text kind =>
      obtain ⟨hplain, hnext⟩ := h
      rw [Style.write, Style.leaf_text, List.mem_append, not_or]
      refine ⟨fun hm => ?_, ih hnext parent⟩
      exact absurd (List.all_eq_true.mp hplain _ hm) (by decide)
    | comment =>
      obtain ⟨⟨-, hamp⟩, hnext⟩ := h
      have hwritten : bareStyle.leaf parent .comment content =
          "<!--".toList ++ content.toList ++ "-->".toList := rfl
      rw [Style.write, hwritten]
      simp [hamp, ih hnext parent]
    | _ => exact absurd h id
  | element m tag children next ihc ih =>
    obtain ⟨hp, hhollow, hchildren, hnext⟩ := h
    have htag := hP tag hp
    cases hv : tag.void with
    | true =>
      cases children with
      | nil =>
        rw [Style.write_void parent m hv, List.mem_append, not_or]
        exact ⟨htag.not_mem_startTag (by decide), ih hnext parent⟩
      | _ => cases hhollow hv
    | false =>
      rw [Style.write_open parent m hv]
      simp only [List.mem_append, not_or]
      exact ⟨htag.not_mem_startTag (by decide), ihc hchildren _,
        Tag.not_mem_endTag_of_isVerbatim htag.isVerbatim, ih hnext parent⟩

theorem Plain.not_mem_write {f : Forest α} (h : f.Plain) (parent : Option String) :
    '&' ∉ bareStyle.write parent f :=
  h.clear.not_mem_write (fun _ => Tag.Plain.verbatim) parent

-- ---------------------------------------------------------------------------
-- Changed tags and marks

theorem bare_mapTags (change : Tag → Tag) (f : Forest α) :
    (f.mapTags change).bare = f.bare.mapTags change := by
  induction f with
  | nil => rfl
  | leaf m kind content next ih => rw [mapTags, bare, bare, mapTags, ih]
  | element m tag children next ihc ih => rw [mapTags, bare, bare, mapTags, ihc, ih]

theorem startsWithText_mapTags (change : Tag → Tag) (f : Forest α) :
    (f.mapTags change).startsWithText = f.startsWithText := by
  cases f with
  | nil => rfl
  | leaf m kind => cases kind <;> rfl
  | element => rfl

theorem isNil_mapTags (change : Tag → Tag) (f : Forest α) :
    (f.mapTags change).isNil = f.isNil := by
  cases f <;> rfl

theorem bare_number (f : Forest α) (next : Nat) : (f.number next).1.bare = f.bare := by
  induction f generalizing next with
  | nil => rfl
  | leaf m kind content rest ih => simp only [Forest.number, Forest.bare, ih]
  | element m t children rest ihc ih => simp only [Forest.number, Forest.bare, ihc, ih]

theorem mapTags_mapTags (change again : Tag → Tag) (f : Forest α) :
    (f.mapTags change).mapTags again = f.mapTags fun t => again (change t) := by
  induction f with
  | nil => rfl
  | leaf m kind content next ih => rw [mapTags, mapTags, mapTags, ih]
  | element m tag children next ihc ih => rw [mapTags, mapTags, mapTags, ihc, ih]

theorem mapTags_eq_self {change : Tag → Tag} {f : Forest α}
    (h : ∀ t ∈ f.descendants.map (·.tag), change t = t) : f.mapTags change = f := by
  induction f with
  | nil => rfl
  | leaf m kind content next ih => rw [mapTags, ih h]
  | element m tag children next ihc ih =>
    simp only [descendants, List.map_cons, List.map_append, List.forall_mem_cons,
      List.forall_mem_append] at h
    rw [mapTags, h.1, ihc h.2.1, ih h.2.2]

theorem tags_mapTags (change : Tag → Tag) (f : Forest α) :
    (f.mapTags change).descendants.map (·.tag) = f.descendants.map fun e => change e.tag := by
  induction f with
  | nil => rfl
  | leaf m kind content next ih => exact ih
  | element m tag children next ihc ih =>
    simp only [mapTags, descendants, List.map_cons, List.map_append, ihc, ih]

theorem tags_bare (f : Forest α) :
    f.bare.descendants.map (·.tag) = f.descendants.map (·.tag) := by
  induction f with
  | nil => rfl
  | leaf m kind content next ih => exact ih
  | element m tag children next ihc ih =>
    simp only [bare, descendants, List.map_cons, List.map_append, ihc, ih]

theorem bare_leading (f : Forest α) : f.leading.bare = f.bare.leading := by
  induction f with
  | nil => rfl
  | leaf m kind content next ih =>
    rw [leading, bare, bare, leading, ih]
    cases kind <;> rfl
  | element m tag children next _ ih => rw [leading, bare, bare, leading, ih]

theorem leading_mapTags (change : Tag → Tag) (f : Forest α) :
    (f.mapTags change).leading = f.leading.mapTags change := by
  induction f with
  | nil => rfl
  | leaf m kind content next ih => rw [mapTags, leading, leading, mapTags, ih]
  | element m tag children next _ ih => rw [mapTags, leading, leading, mapTags, ih]

theorem Steady.leading {f : Forest α} (h : f.Steady) : f.leading = f := by
  induction f with
  | nil => rfl
  | leaf m kind content next ih =>
    cases kind with
    | text kind =>
      rw [Forest.leading, ih h.2.2]
      rfl
    | comment =>
      rw [Forest.leading, ih h.2]
      rfl
    | _ => exact absurd h id
  | element m tag children next _ ih => rw [Forest.leading, ih h.2]

-- ---------------------------------------------------------------------------
-- All elements

/-- Is this so of all elements, by their tags and by whether they are empty? -/
def Every (P : Tag → Bool → Prop) (f : Forest α) : Prop :=
  ∀ e ∈ f.descendants, P e.tag e.children.isNil

instance (P : Tag → Bool → Prop) [∀ t empty, Decidable (P t empty)] (f : Forest α) :
    Decidable (f.Every P) :=
  inferInstanceAs (Decidable (∀ e ∈ f.descendants, _))

variable {P : Tag → Bool → Prop}

theorem every_element {m : α} {t : Tag} {children next : Forest α} :
    (element m t children next).Every P ↔
      P t children.isNil ∧ children.Every P ∧ next.Every P := by
  simp only [Every, descendants, List.forall_mem_cons, List.forall_mem_append]

theorem every_append {f g : Forest α} : (f ++ g).Every P ↔ f.Every P ∧ g.Every P := by
  simp only [Every, descendants_append, List.forall_mem_append]

theorem forall_bare {Q : Tag → Forest Unit → Prop} {f : Forest α} :
    (∀ e ∈ f.bare.descendants, Q e.tag e.children) ↔
      ∀ e ∈ f.descendants, Q e.tag e.children.bare := by
  induction f with
  | nil => exact ⟨fun _ => nofun, fun _ => nofun⟩
  | leaf m kind content next ih => exact ih
  | element m t children next ihc ih =>
    simp only [bare, descendants, List.forall_mem_cons, List.forall_mem_append, ihc, ih]

theorem every_bare {f : Forest α} : f.bare.Every P ↔ f.Every P := by
  have h := @forall_bare α (fun t children => P t children.isNil) f
  simp only [isNil_bare] at h
  exact h

theorem reread_of_apart {f : Forest α} (h : f.startsWithText = false) (opened : List String)
    (content : String) : f.reread opened content = textNode opened content (f.reread opened "") := by
  cases f with
  | nil => rfl
  | leaf m kind more next =>
    cases kind with
    | text => cases h
    | _ => rfl
  | element => rfl

end Forest

end Mailgrid.Markup
