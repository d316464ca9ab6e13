import Mailgrid.Markup.Style
import Mailgrid.Markup.Token
import Mathlib.Data.List.TakeWhile

/-!
# Tokens of written tags

A tag with a legible name and legible attributes, written and read again, is
one token: its names come back in lower case, its values as they were.
-/

namespace Mailgrid.Markup

open Mailgrid.Text (isBlank skipBlanks cutAtChar)

/-- Only the characters of the list are tried, where `Fintype` tries all there are. -/
instance decidableForallMem (p : Char → Prop) [DecidablePred p] (s : List Char) :
    Decidable (∀ c ∈ s, p c) :=
  List.decidableBAll p s

-- ---------------------------------------------------------------------------
-- Legible names and values

def isNameLetter (c : Char) : Bool :=
  c.isAlphanum || c == '-'

/-- Letters, digits and dashes of ASCII, a letter first. -/
def isLegible (name : String) : Bool :=
  Token.startsWithLetter name.toList && name.toList.all isNameLetter

/-- A value that stands between double quotes as it is. -/
def isLegibleValue : AttributeValue → Bool
  | .text value => !value.toList.contains '"' && !value.toList.contains '&'
  | _ => false

/-- The elements whose content is literal, and the one whose attributes may name a character set. -/
def reservedNames : List String :=
  ["script", "style", "meta"]

def Tag.isLegible (t : Tag) : Bool :=
  Markup.isLegible t.name && !reservedNames.contains (Text.lowerString t.name) &&
    t.attributes.all fun (name, value) => Markup.isLegible name && isLegibleValue value

/-- What is read as the name of an attribute: it ends where its value begins or the next attribute
may. -/
def isAttributeName (name : String) : Bool :=
  match name.toList with
  | [] => false
  | c :: rest => !(isBlank c || c == '/' || c == '>') && rest.all OpenTag.isAttributeChar

/-- A tag that is legible but for the names of its attributes. -/
def Tag.isReadable (t : Tag) : Bool :=
  Markup.isLegible t.name && !reservedNames.contains (Text.lowerString t.name) &&
    t.attributes.all fun (name, value) => isAttributeName name && isLegibleValue value

/-- A value that ends where its quotes do, though it may hold references. -/
def isQuotedValue : AttributeValue → Bool
  | .text value => !value.toList.contains '"'
  | _ => false

/-- A tag that is readable but for the references in its values. -/
def Tag.isQuoted (t : Tag) : Bool :=
  Markup.isLegible t.name && !reservedNames.contains (Text.lowerString t.name) &&
    t.attributes.all fun (name, value) => isAttributeName name && isQuotedValue value

/-- A value that ends where its quotes do, whichever kind they are of: one without quotes of both
kinds. It may hold references. -/
def isEnclosedValue : AttributeValue → Bool
  | .text value => !(value.toList.contains '"' && value.toList.contains '\'')
  | _ => false

/-- A value that stands between quotes, of one kind or the other, as it is. -/
def isVerbatimValue (value : AttributeValue) : Bool :=
  isEnclosedValue value && !value.shown.toList.contains '&'

/-- A tag that is legible but for the names of its attributes, and with such values. -/
def Tag.isWritten (P : AttributeValue → Bool) (t : Tag) : Bool :=
  Markup.isLegible t.name && !reservedNames.contains (Text.lowerString t.name) &&
    t.attributes.all fun (name, value) => isAttributeName name && P value

/-- A tag that is quoted, with whichever quotes. -/
def Tag.isEnclosed (t : Tag) : Bool :=
  t.isWritten isEnclosedValue

/-- A tag that is readable, with whichever quotes. -/
def Tag.isVerbatim (t : Tag) : Bool :=
  t.isWritten isVerbatimValue

/-- The quotes that a value is written in. -/
def quoteOf (value : List Char) : Char :=
  if value.contains '"' then '\'' else '"'

/-- Attributes as they are read. -/
def readPairs (attributes : List (String × AttributeValue)) : List (String × String) :=
  attributes.map fun (name, value) => (Text.lowerString name, value.shown)

/-- Attributes as they are read, with the references in their values resolved. -/
def resolvedPairs (attributes : List (String × AttributeValue)) : List (String × String) :=
  attributes.map fun (name, value) =>
    (Text.lowerString name, String.ofList (Reference.resolve value.shown.toList))

/-- Does a value refer to a character by a number that cannot be read? -/
def holdTooLong (attributes : List (String × AttributeValue)) : Bool :=
  attributes.any fun (_, value) => Reference.holdsTooLong value.shown.toList

/-- The style of a document in which no reference is decoded. -/
def bareStyle : Style :=
  ⟨.nothing, false, true, false⟩

theorem ascii_of_isNameLetter {c : Char} (h : isNameLetter c = true) : c.toNat < 0x80 := by
  change (((decide (65 ≤ c.val ∧ c.val ≤ 90) || (decide (97 ≤ c.val) && decide (c.val ≤ 122))) ||
    (decide (48 ≤ c.val) && decide (c.val ≤ 57))) || c == '-') = true at h
  simp only [Bool.or_eq_true, Bool.and_eq_true, decide_eq_true_eq, beq_iff_eq,
    UInt32.le_iff_toNat_le] at h
  change ((((65 ≤ c.toNat ∧ c.toNat ≤ 90) ∨ (97 ≤ c.toNat ∧ c.toNat ≤ 122)) ∨
    (48 ≤ c.toNat ∧ c.toNat ≤ 57)) ∨ c = '-') at h
  rcases h with ((h | h) | h) | rfl
  · omega
  · omega
  · omega
  · decide

theorem of_ascii {P : Char → Prop} (h : ∀ n < 0x80, P (Char.ofNat n)) {c : Char}
    (hc : c.toNat < 0x80) : P c := by
  have := h c.toNat hc
  rwa [Char.ofNat_toNat] at this

theorem of_isNameLetter {c : Char} (h : isNameLetter c = true) :
    OpenTag.isNameChar c = true ∧ OpenTag.isAttributeChar c = true ∧
      Token.isPlainNameChar c = true ∧ isBlank c = false ∧ c ≠ '/' ∧ c ≠ '>' ∧
      OpenTag.isQuote c = false :=
  of_ascii (P := fun c => isNameLetter c = true → OpenTag.isNameChar c = true ∧
    OpenTag.isAttributeChar c = true ∧ Token.isPlainNameChar c = true ∧ isBlank c = false ∧
    c ≠ '/' ∧ c ≠ '>' ∧ OpenTag.isQuote c = false) (by decide) (ascii_of_isNameLetter h) h

theorem exists_of_isLegible {name : String} (h : isLegible name = true) :
    ∃ c rest, name.toList = c :: rest ∧ c.isAlpha = true ∧
      ∀ d ∈ c :: rest, isNameLetter d = true := by
  simp only [isLegible, Bool.and_eq_true, List.all_eq_true] at h
  obtain ⟨hstart, hall⟩ := h
  cases hn : name.toList with
  | nil => simp [hn, Token.startsWithLetter] at hstart
  | cons c rest =>
    rw [hn] at hstart hall
    exact ⟨c, rest, rfl, hstart, hall⟩

theorem skipBlanks_of_isLegible {name : String} (h : isLegible name = true) (rest : List Char) :
    skipBlanks (name.toList ++ rest) = name.toList ++ rest := by
  obtain ⟨c, letters, hn, -, hall⟩ := exists_of_isLegible h
  rw [hn]
  exact Text.skipBlanks_of_not_blank (of_isNameLetter (hall c List.mem_cons_self)).2.2.2.1 _

theorem exists_of_isAttributeName {name : String} (h : isAttributeName name = true) :
    ∃ c rest, name.toList = c :: rest ∧ isBlank c = false ∧ c ≠ '/' ∧ c ≠ '>' ∧
      ∀ d ∈ rest, OpenTag.isAttributeChar d = true := by
  unfold isAttributeName at h
  cases hn : name.toList with
  | nil =>
    rw [hn] at h
    cases h
  | cons c rest =>
    simp only [hn, Bool.and_eq_true, Bool.not_eq_true', Bool.or_eq_false_iff,
      beq_eq_false_iff_ne, List.all_eq_true] at h
    exact ⟨c, rest, rfl, h.1.1.1, h.1.1.2, h.1.2, h.2⟩

theorem isAttributeName_of_isLegible {name : String} (h : isLegible name = true) :
    isAttributeName name = true := by
  obtain ⟨c, rest, hn, -, hall⟩ := exists_of_isLegible h
  obtain ⟨hc, hrest⟩ := List.forall_mem_cons.mp hall
  obtain ⟨-, -, -, hblank, hslash, hclose, -⟩ := of_isNameLetter hc
  simp only [isAttributeName, hn, hblank, Bool.false_or, Bool.and_eq_true, Bool.not_eq_true',
    Bool.or_eq_false_iff, beq_eq_false_iff_ne, List.all_eq_true]
  exact ⟨⟨hslash, hclose⟩, fun d hd => (of_isNameLetter (hrest d hd)).2.1⟩

theorem Tag.isReadable_of_isLegible {t : Tag} (h : t.isLegible = true) : t.isReadable = true := by
  simp only [Tag.isLegible, Tag.isReadable, Bool.and_eq_true, List.all_eq_true] at h ⊢
  exact ⟨h.1, fun a ha => ⟨isAttributeName_of_isLegible (h.2 a ha).1, (h.2 a ha).2⟩⟩

theorem Tag.isWritten_mono {P Q : AttributeValue → Bool}
    (hvalue : ∀ value, P value = true → Q value = true) {t : Tag} (h : t.isWritten P = true) :
    t.isWritten Q = true := by
  simp only [Tag.isWritten, Bool.and_eq_true, List.all_eq_true] at h ⊢
  exact ⟨h.1, fun a ha => ⟨(h.2 a ha).1, hvalue a.2 (h.2 a ha).2⟩⟩

theorem isQuotedValue_of_isLegibleValue {value : AttributeValue}
    (h : isLegibleValue value = true) : isQuotedValue value = true := by
  cases value with
  | text value =>
    simp only [isLegibleValue, Bool.and_eq_true] at h
    exact h.1
  | words => cases h
  | charset => cases h
  | contentType => cases h

theorem Tag.isQuoted_of_isReadable {t : Tag} (h : t.isReadable = true) : t.isQuoted = true :=
  Tag.isWritten_mono (P := isLegibleValue) (fun _ => isQuotedValue_of_isLegibleValue) h

theorem isEnclosedValue_of_isQuotedValue {value : AttributeValue}
    (h : isQuotedValue value = true) : isEnclosedValue value = true := by
  cases value with
  | text value =>
    simp only [isQuotedValue, Bool.not_eq_true'] at h
    rw [isEnclosedValue, h]
    rfl
  | words => cases h
  | charset => cases h
  | contentType => cases h

theorem isVerbatimValue_of_isLegibleValue {value : AttributeValue}
    (h : isLegibleValue value = true) : isVerbatimValue value = true := by
  rw [isVerbatimValue,
    isEnclosedValue_of_isQuotedValue (isQuotedValue_of_isLegibleValue h), Bool.true_and]
  cases value with
  | text value => exact (Bool.and_eq_true_iff.mp h).2
  | words => cases h
  | charset => cases h
  | contentType => cases h

theorem Tag.isEnclosed_of_isQuoted {t : Tag} (h : t.isQuoted = true) : t.isEnclosed = true :=
  Tag.isWritten_mono (P := isQuotedValue) (fun _ => isEnclosedValue_of_isQuotedValue) h

theorem Tag.isVerbatim_of_isReadable {t : Tag} (h : t.isReadable = true) : t.isVerbatim = true :=
  Tag.isWritten_mono (P := isLegibleValue) (fun _ => isVerbatimValue_of_isLegibleValue) h

theorem Tag.isEnclosed_of_isVerbatim {t : Tag} (h : t.isVerbatim = true) : t.isEnclosed = true :=
  Tag.isWritten_mono (P := isVerbatimValue) (fun _ h => (Bool.and_eq_true_iff.mp h).1) h

theorem Tag.isLegible_name {t : Tag} (h : t.isVerbatim = true) : Markup.isLegible t.name = true := by
  simp only [Tag.isVerbatim, Tag.isWritten, Bool.and_eq_true] at h
  exact h.1.1

theorem isEnclosedValue_cases {value : AttributeValue} (h : isEnclosedValue value = true) :
    ∃ s, value = .text s ∧ ('"' ∉ s.toList ∨ '\'' ∉ s.toList) := by
  cases value with
  | text s =>
    refine ⟨s, rfl, ?_⟩
    simpa [isEnclosedValue, Decidable.or_iff_not_imp_left] using h
  | words => cases h
  | charset => cases h
  | contentType => cases h

theorem inQuotes_of_not_mem {value : List Char} (h : '"' ∉ value) :
    inQuotes value = '"' :: value ++ ['"'] := by
  simp [inQuotes, h]

theorem inQuotes_eq {value : List Char} (h : '"' ∉ value ∨ '\'' ∉ value) :
    inQuotes value = quoteOf value :: value ++ [quoteOf value] ∧ quoteOf value ∉ value ∧
      OpenTag.isQuote (quoteOf value) = true := by
  by_cases hd : '"' ∈ value
  · have hs := h.resolve_left fun hn => hn hd
    simp [inQuotes, quoteOf, hd, hs, OpenTag.isQuote]
  · simp [inQuotes, quoteOf, hd, OpenTag.isQuote]

theorem Reference.holdsTooLong_of_not_mem {s : List Char} (h : '&' ∉ s) :
    holdsTooLong s = false := by
  induction s with
  | nil => rfl
  | cons c rest ih =>
    simp only [List.mem_cons, not_or] at h
    rw [holdsTooLong]
    · exact ih h.2
    · rintro - hc -
      exact h.1 hc.symm

theorem Tag.pairs_of_isVerbatim {t : Tag} (h : t.isVerbatim = true) :
    holdTooLong t.attributes = false ∧ resolvedPairs t.attributes = readPairs t.attributes := by
  simp only [Tag.isVerbatim, Tag.isWritten, isVerbatimValue, Bool.and_eq_true, Bool.not_eq_true',
    List.contains_eq_mem, decide_eq_false_iff_not, List.all_eq_true] at h
  have hampersand : ∀ a ∈ t.attributes, '&' ∉ a.2.shown.toList := fun a ha => (h.2 a ha).2.2
  constructor
  · refine List.any_eq_false.mpr fun a ha => ?_
    simp [Reference.holdsTooLong_of_not_mem (hampersand a ha)]
  · refine List.map_congr_left fun a ha => ?_
    simp [Reference.resolve_of_not_mem (hampersand a ha)]

theorem Tag.pairs_of_isReadable {t : Tag} (h : t.isReadable = true) :
    holdTooLong t.attributes = false ∧ resolvedPairs t.attributes = readPairs t.attributes :=
  Tag.pairs_of_isVerbatim (Tag.isVerbatim_of_isReadable h)

-- ---------------------------------------------------------------------------
-- Attributes

namespace OpenTag

theorem attribute?_written {name : String} {value : List Char} {quote : Char}
    (hn : isAttributeName name = true) (hq : isQuote quote = true) (hv : quote ∉ value)
    (rest : List Char) :
    attribute? (name.toList ++ '=' :: quote :: (value ++ quote :: rest)) =
      some ⟨name.toList, value, true, rest⟩ := by
  obtain ⟨c, cs, hname, hb, hslash, hclose, hcs⟩ := exists_of_isAttributeName hn
  have hstop : isAttributeChar '=' = false := rfl
  have hvalue : value? ('=' :: quote :: (value ++ quote :: rest)) = some ⟨value, true, rest⟩ := by
    have hblank : isBlank '=' = false := rfl
    obtain ⟨hquote, hequals⟩ : isBlank quote = false ∧ quote ≠ '=' := by
      simp only [isQuote, Bool.or_eq_true, beq_iff_eq] at hq
      rcases hq with rfl | rfl
      · exact ⟨rfl, by decide⟩
      · exact ⟨rfl, by decide⟩
    simp [value?, skipBlanks, hblank, hquote, hequals, valueAt?, hq, Text.cutAtChar_append hv]
  rw [hname, List.cons_append, attribute?]
  simp only [hb, List.takeWhile_append_of_pos hcs, List.dropWhile_append_of_pos hcs,
    List.takeWhile_cons, List.dropWhile_cons, hstop]
  simp [hslash, hclose]
  rw [hvalue]

theorem attributesOf_of_some {s : List Char} {a : Attribute} (h : attribute? s = some a) :
    attributesOf true s =
      (a :: (attributesOf (a.value.open_ || startsWithGap a.value.rest)
          (skipGaps a.value.rest)).1,
        (attributesOf (a.value.open_ || startsWithGap a.value.rest)
          (skipGaps a.value.rest)).2) := by
  rw [attributesOf, if_pos rfl]
  split
  · rename_i ha; cases h.symm.trans ha; rfl
  · rename_i ha; cases h.symm.trans ha

theorem attributesOf_of_none {s : List Char} (h : attribute? s = none) (touching : Bool) :
    attributesOf touching s = ([], s) := by
  rw [attributesOf]
  split
  · split
    · rename_i ha; cases h.symm.trans ha
    · rfl
  · rfl

/-- What ends a start tag, without a blank before it, and whether it closes the element too. -/
inductive Ending : List Char → List Char → Bool → Prop where
  | open_ : Ending ['>'] ['>'] false
  | closed : Ending ['/', '>'] ['/', '>'] true
  | apart : Ending [' ', '/', '>'] ['/', '>'] true

theorem Ending.stop {ending last : List Char} {closed : Bool} (h : Ending ending last closed)
    (rest : List Char) :
    skipGaps (ending ++ rest) = last ++ rest ∧ attribute? (last ++ rest) = none := by
  have hclose : isBlank '>' = false := rfl
  have hslash : isBlank '/' = false := rfl
  have hspace : isBlank ' ' = true := rfl
  cases h <;> simp [skipGaps, isGap, attribute?, hclose, hslash, hspace]

variable {ending last : List Char} {closed : Bool}

theorem skipGaps_of_name {name : String} (hn : isAttributeName name = true) (rest : List Char) :
    skipGaps (name.toList ++ rest) = name.toList ++ rest := by
  obtain ⟨c, cs, hname, hb, hslash, -⟩ := exists_of_isAttributeName hn
  simp [hname, skipGaps, isGap, hb, hslash]

theorem attributeText_bare (name value : String) (hv : '"' ∉ value.toList) (rest : List Char) :
    bareStyle.attributeText (name, .text value) ++ rest =
      ' ' :: (name.toList ++ '=' :: '"' :: (value.toList ++ '"' :: rest)) := by
  simp [Style.attributeText, bareStyle, Escape.apply, AttributeValue.printed,
    inQuotes_of_not_mem hv]

theorem attributeText_enclosed (name value : String) (hv : '"' ∉ value.toList ∨ '\'' ∉ value.toList)
    (rest : List Char) : bareStyle.attributeText (name, .text value) ++ rest =
      ' ' :: (name.toList ++ '=' :: quoteOf value.toList ::
        (value.toList ++ quoteOf value.toList :: rest)) := by
  simp [Style.attributeText, bareStyle, Escape.apply, AttributeValue.printed, (inQuotes_eq hv).1]

theorem attributesOf_enclosed {attributes : List (String × AttributeValue)}
    (h : attributes.all (fun (name, value) => isAttributeName name && isEnclosedValue value) = true)
    (he : Ending ending last closed) (rest : List Char) (touching : Bool)
    (ht : attributes ≠ [] → touching = true) :
    ∃ found, attributesOf touching
        (skipGaps (attributes.flatMap bareStyle.attributeText ++ (ending ++ rest))) =
          (found, last ++ rest) ∧
      found.map (·.pair) = resolvedPairs attributes ∧
      (found.any fun a => Reference.holdsTooLong a.value.text) = holdTooLong attributes := by
  induction attributes generalizing touching with
  | nil =>
    obtain ⟨hskip, hnone⟩ := he.stop rest
    refine ⟨[], ?_, rfl, rfl⟩
    rw [List.flatMap_nil, List.nil_append, hskip]
    exact attributesOf_of_none hnone touching
  | cons a more ih =>
    obtain ⟨name, value⟩ := a
    simp only [List.all_cons, Bool.and_eq_true] at h
    obtain ⟨⟨hn, hvalue⟩, hmore⟩ := h
    obtain ⟨value, rfl, hquotes⟩ := isEnclosedValue_cases hvalue
    obtain ⟨-, hnot, hquote⟩ := inQuotes_eq hquotes
    obtain ⟨found, hf, hpairs, hlong⟩ := ih hmore true (fun _ => rfl)
    refine ⟨⟨name.toList, value.toList, true,
      more.flatMap bareStyle.attributeText ++ (ending ++ rest)⟩ :: found, ?_, ?_, ?_⟩
    · rw [List.flatMap_cons, List.append_assoc, attributeText_enclosed name value hquotes]
      have hspace : isBlank ' ' = true := rfl
      simp only [skipGaps, isGap, hspace, Bool.true_or, if_true, skipGaps_of_name hn]
      rw [ht (by simp), attributesOf_of_some (attribute?_written hn hquote hnot _), Bool.true_or,
        hf]
    · rw [List.map_cons, hpairs]
      simp [resolvedPairs, Attribute.pair, Text.lowerString, AttributeValue.shown]
    · rw [List.any_cons, hlong]
      simp [holdTooLong, AttributeValue.shown]

theorem behind_name {attributes : List (String × AttributeValue)}
    (h : attributes.all (fun (name, value) => isAttributeName name && isEnclosedValue value) = true)
    (he : Ending ending last closed) (rest : List Char) :
    ∃ c more, attributes.flatMap bareStyle.attributeText ++ (ending ++ rest) = c :: more ∧
      isNameChar c = false ∧ (attributes ≠ [] → startsWithGap (c :: more) = true) := by
  cases attributes with
  | nil => cases he <;> exact ⟨_, _, rfl, rfl, fun hn => absurd rfl hn⟩
  | cons a more =>
    obtain ⟨name, value⟩ := a
    simp only [List.all_cons, Bool.and_eq_true] at h
    obtain ⟨value, rfl, hquotes⟩ := isEnclosedValue_cases h.1.2
    rw [List.flatMap_cons, List.append_assoc, attributeText_enclosed name value hquotes]
    exact ⟨' ', _, rfl, rfl, fun _ => rfl⟩

/-- A start tag is read with its names in lower case, unless a number in it is too long. -/
theorem read_enclosed {t : Tag} (h : t.isEnclosed = true) (he : Ending ending last closed)
    (rest : List Char) :
    read (t.name.toList ++ (bareStyle.attributes t.attributes ++ (ending ++ rest))) =
      if holdTooLong t.attributes then .refused
      else .complete ⟨Text.lowerString t.name, resolvedPairs t.attributes, closed⟩ rest := by
  simp only [Tag.isEnclosed, Tag.isWritten, Bool.and_eq_true] at h
  obtain ⟨⟨hname, -⟩, hattributes⟩ := h
  obtain ⟨c, cs, hn, -, hall⟩ := exists_of_isLegible hname
  have hchars : ∀ d ∈ t.name.toList, isNameChar d = true := fun d hd =>
    (of_isNameLetter (hall d (hn ▸ hd))).1
  have hlist : bareStyle.attributes t.attributes =
    t.attributes.flatMap bareStyle.attributeText := rfl
  obtain ⟨d, more, hbehind, hstop, hgap⟩ := behind_name hattributes he rest
  obtain ⟨found, hfound, hpairs, hlong⟩ := attributesOf_enclosed hattributes he rest
    (startsWithGap (d :: more) ||
      (t.name.toList.getLast?.map fun c => isQuote c || isBlank c).getD false)
    (fun hne => by rw [hgap hne, Bool.true_or])
  rw [hbehind] at hfound
  have htake : (d :: more).takeWhile isNameChar = [] := by simp [hstop]
  have hdrop : (d :: more).dropWhile isNameChar = d :: more := by simp [hstop]
  simp only [read, hlist, hbehind, List.takeWhile_append_of_pos hchars,
    List.dropWhile_append_of_pos hchars, htake, hdrop, List.append_nil, hfound, hlong, hpairs]
  cases he <;> rfl

theorem read_quoted {t : Tag} (h : t.isQuoted = true) (he : Ending ending last closed)
    (rest : List Char) :
    read (t.name.toList ++ (bareStyle.attributes t.attributes ++ (ending ++ rest))) =
      if holdTooLong t.attributes then .refused
      else .complete ⟨Text.lowerString t.name, resolvedPairs t.attributes, closed⟩ rest :=
  read_enclosed (Tag.isEnclosed_of_isQuoted h) he rest

end OpenTag

-- ---------------------------------------------------------------------------
-- Constructs

namespace Token

theorem scan_of_constructAt {closing : Bool} {s rest : List Char} {tokens : List Token}
    {literal : Option (List Char)} (h : constructAt s = .read tokens literal rest) :
    scan closing none ('<' :: s) = tokens ++ scan closing literal rest := by
  rw [scan]
  split
  · rename_i hr; cases h.symm.trans hr; rfl
  · rename_i hr; cases h.symm.trans hr
  · rename_i hr; cases h.symm.trans hr

theorem scan_nil (closing : Bool) : scan closing none [] = [] := by
  rw [scan]

theorem constructAt_of_isAlpha {c : Char} (h : c.isAlpha = true) (rest : List Char) :
    constructAt (c :: rest) = startTagAt (c :: rest) := by
  unfold constructAt
  split
  · rename_i hs; cases hs; cases h
  · rename_i hs; cases hs; cases h
  · rename_i hs; cases hs; cases h
  · rename_i hs; cases hs
  · rename_i hs; cases hs; rw [if_pos h]

theorem not_isLiteralElement {name : List Char}
    (h : reservedNames.contains (String.ofList name) = false) : isLiteralElement name = false := by
  cases hl : isLiteralElement name with
  | false => rfl
  | true =>
    simp only [isLiteralElement, Bool.or_eq_true, beq_iff_eq] at hl
    rcases hl with rfl | rfl
    · cases h
    · cases h

theorem scan_of_refused {closing : Bool} {s : List Char} {f : Failure}
    (h : constructAt s = .refused f) : scan closing none ('<' :: s) = [.refused f] := by
  rw [scan]
  split
  · rename_i hr; cases h.symm.trans hr
  · rename_i hr; cases h.symm.trans hr; rfl
  · rename_i hr; cases h.symm.trans hr

theorem constructAt_enclosed {t : Tag} (h : t.isEnclosed = true) {ending last : List Char}
    {closed : Bool} (he : OpenTag.Ending ending last closed) (rest : List Char) :
    constructAt (t.name.toList ++ (bareStyle.attributes t.attributes ++ (ending ++ rest))) =
      if holdTooLong t.attributes then .refused .numberTooLong
      else .read [.startTag ⟨Text.lowerString t.name, resolvedPairs t.attributes, closed⟩]
        none rest := by
  have hread := OpenTag.read_enclosed h he rest
  simp only [Tag.isEnclosed, Tag.isWritten, Bool.and_eq_true, Bool.not_eq_true'] at h
  obtain ⟨c, cs, hn, hc, -⟩ := exists_of_isLegible h.1.1
  rw [hn, List.cons_append] at hread ⊢
  rw [constructAt_of_isAlpha hc, startTagAt, hread]
  cases holdTooLong t.attributes with
  | false => simp [Text.lowerString, not_isLiteralElement h.1.2]
  | true => rfl

theorem constructAt_quoted {t : Tag} (h : t.isQuoted = true) {ending last : List Char}
    {closed : Bool} (he : OpenTag.Ending ending last closed) (rest : List Char) :
    constructAt (t.name.toList ++ (bareStyle.attributes t.attributes ++ (ending ++ rest))) =
      if holdTooLong t.attributes then .refused .numberTooLong
      else .read [.startTag ⟨Text.lowerString t.name, resolvedPairs t.attributes, closed⟩]
        none rest :=
  constructAt_enclosed (Tag.isEnclosed_of_isQuoted h) he rest

theorem scan_enclosed {t : Tag} (h : t.isEnclosed = true) {ending last : List Char}
    {closed : Bool} (he : OpenTag.Ending ending last closed) (closing : Bool) (rest : List Char) :
    scan closing none (bareStyle.startTag t ending ++ rest) =
      if holdTooLong t.attributes then [.refused .numberTooLong]
      else .startTag ⟨Text.lowerString t.name, resolvedPairs t.attributes, closed⟩ ::
        scan closing none rest := by
  have hconstruct := constructAt_enclosed h he rest
  have hwritten : bareStyle.startTag t ending ++ rest =
      '<' :: (t.name.toList ++ (bareStyle.attributes t.attributes ++ (ending ++ rest))) := by
    simp [Style.startTag]
  rw [hwritten]
  cases hl : holdTooLong t.attributes with
  | false =>
    rw [hl] at hconstruct
    rw [scan_of_constructAt hconstruct]
    rfl
  | true =>
    rw [hl] at hconstruct
    exact scan_of_refused hconstruct

theorem scan_quoted {t : Tag} (h : t.isQuoted = true) {ending last : List Char}
    {closed : Bool} (he : OpenTag.Ending ending last closed) (closing : Bool) (rest : List Char) :
    scan closing none (bareStyle.startTag t ending ++ rest) =
      if holdTooLong t.attributes then [.refused .numberTooLong]
      else .startTag ⟨Text.lowerString t.name, resolvedPairs t.attributes, closed⟩ ::
        scan closing none rest :=
  scan_enclosed (Tag.isEnclosed_of_isQuoted h) he closing rest

theorem scan_verbatim {t : Tag} (h : t.isVerbatim = true) {ending last : List Char}
    {closed : Bool} (he : OpenTag.Ending ending last closed) (closing : Bool) (rest : List Char) :
    scan closing none (bareStyle.startTag t ending ++ rest) =
      .startTag ⟨Text.lowerString t.name, readPairs t.attributes, closed⟩ ::
        scan closing none rest := by
  obtain ⟨hlong, hpairs⟩ := Tag.pairs_of_isVerbatim h
  rw [scan_enclosed (Tag.isEnclosed_of_isVerbatim h) he, hlong, hpairs]
  rfl

theorem scan_startTag {t : Tag} (h : t.isReadable = true) {ending last : List Char}
    {closed : Bool} (he : OpenTag.Ending ending last closed) (closing : Bool) (rest : List Char) :
    scan closing none (bareStyle.startTag t ending ++ rest) =
      .startTag ⟨Text.lowerString t.name, readPairs t.attributes, closed⟩ ::
        scan closing none rest :=
  scan_verbatim (Tag.isVerbatim_of_isReadable h) he closing rest

theorem constructAt_legibleEnd {t : Tag} (h : Markup.isLegible t.name = true) (rest : List Char) :
    constructAt ('/' :: (t.name.toList ++ '>' :: rest)) =
      .read [.endTag (Text.lowerString t.name)] none rest := by
  obtain ⟨c, cs, hn, hc, hall⟩ := exists_of_isLegible h
  have hclose : '>' ∉ t.name.toList := fun hm => (of_isNameLetter (hall _ (hn ▸ hm))).2.2.2.2.2.1 rfl
  have hplain : ∀ d ∈ t.name.toList, isPlainNameChar d = true := fun d hd =>
    (of_isNameLetter (hall d (hn ▸ hd))).2.2.1
  have hblank : skipBlanks t.name.toList = t.name.toList := by
    simpa using skipBlanks_of_isLegible h []
  have hletter : startsWithLetter t.name.toList = true := by rw [hn]; exact hc
  have hdrop : t.name.toList.dropWhile isPlainNameChar = [] := List.dropWhile_eq_nil_iff.mpr hplain
  have htake : t.name.toList.takeWhile isPlainNameChar = t.name.toList :=
    List.takeWhile_eq_self_iff.mpr hplain
  have hclosed : closedBy t.name.toList = [.endTag (Text.lowerString t.name)] := by
    have hnil : skipBlanks [] = [] := rfl
    simp [closedBy, hblank, hletter, hdrop, htake, hnil, Text.lowerString]
  simp [constructAt, upToClose, Text.cutAtChar_append hclose, hclosed]

theorem scan_legibleEnd {t : Tag} (h : Markup.isLegible t.name = true) (closing : Bool)
    (rest : List Char) : scan closing none (Style.endTag t ++ rest) =
      .endTag (Text.lowerString t.name) :: scan closing none rest := by
  have hwritten : Style.endTag t ++ rest = '<' :: '/' :: (t.name.toList ++ '>' :: rest) := by
    simp [Style.endTag]
  rw [hwritten, scan_of_constructAt (constructAt_legibleEnd h rest)]
  rfl

theorem scan_endTag {t : Tag} (h : t.isReadable = true) (closing : Bool) (rest : List Char) :
    scan closing none (Style.endTag t ++ rest) =
      .endTag (Text.lowerString t.name) :: scan closing none rest := by
  simp only [Tag.isReadable, Bool.and_eq_true] at h
  exact scan_legibleEnd h.1.1 closing rest

theorem scan_reference {name : List Char} (hstart : startsWithLetter name = true)
    (hname : ∀ c ∈ name, isReferenceNameChar c = true) (closing : Bool) (rest : List Char) :
    scan closing none ('&' :: (name ++ ';' :: rest)) =
      textOf (referredBy name) :: scan closing none rest := by
  have hstop : isReferenceNameChar ';' = false := rfl
  have hat : nameAt? (name ++ ';' :: rest) = some (name, rest) := by
    have htake : (name ++ ';' :: rest).takeWhile isReferenceNameChar = name := by
      rw [List.takeWhile_append_of_pos hname, List.takeWhile_cons, hstop]
      simp
    have hdrop : (name ++ ';' :: rest).dropWhile isReferenceNameChar = ';' :: rest := by
      rw [List.dropWhile_append_of_pos hname, List.dropWhile_cons, hstop]
      simp
    rw [nameAt?, htake, hdrop]
    rfl
  have hreferred : referenceAt closing (name ++ ';' :: rest) =
      .complete (textOf (referredBy name)) rest := by
    cases name with
    | nil => cases hstart
    | cons c name =>
      have hletter : startsWithLetter (c :: name ++ ';' :: rest) = true := hstart
      unfold referenceAt
      split
      · rename_i he
        cases he
        cases hstart
      · rw [if_pos hletter, hat]
  rw [scan]
  split
  · rename_i hr
    cases hreferred.symm.trans hr
    rfl
  · rename_i hr
    cases hreferred.symm.trans hr

theorem scan_text {c : Char} {content rest : List Char} (h : ∀ d ∈ c :: content, isPlain d = true)
    (closing : Bool) : scan closing none (c :: content ++ rest) =
      textOf (c :: content ++ rest.takeWhile isPlain) ::
        scan closing none (rest.dropWhile isPlain) := by
  have hc := h c (by simp)
  have hcontent : ∀ d ∈ content, isPlain d = true := fun d hd => h d (by simp [hd])
  rw [List.cons_append, scan]
  · rw [List.takeWhile_append_of_pos hcontent, List.dropWhile_append_of_pos hcontent]
    rfl
  · rintro rfl; cases hc
  · rintro rfl; cases hc

end Token

end Mailgrid.Markup
