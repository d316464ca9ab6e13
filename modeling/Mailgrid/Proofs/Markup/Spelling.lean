import Mailgrid.Markup.Spelling
import Mailgrid.Proofs.Markup.Ordinary

/-!
# Names get their spellings back

The spellings that are collected from an ordinary document are those of its
elements and attributes. Where each name has one spelling, it gets that back,
because it is in lower case or its spelling was collected.
-/

namespace Mailgrid.Markup.Spelling

open Mailgrid.Text (isBlank skipBlanks lowerString)

-- ---------------------------------------------------------------------------
-- Tables of spellings

/-- The lower case of a spelling, if it is in mixed case. -/
def isSpellingOf (name : String) (s : List Char) : Bool :=
  Text.isMixedCase s && String.ofList (Text.lower s) == name

theorem lookup_note (table : List (String × String)) (s : List Char) (name : String) :
    (note table s).lookup name =
      (table.lookup name).or (if isSpellingOf name s then some (String.ofList s) else none) := by
  unfold note isSpellingOf
  cases hm : Text.isMixedCase s with
  | false => simp
  | true =>
    by_cases hn : String.ofList (Text.lower s) = name
    · subst hn
      cases hl : table.lookup (String.ofList (Text.lower s)) with
      | none => simp [List.lookup_append, hl]
      | some v => simp [hl]
    · have hne : (name == String.ofList (Text.lower s)) = false := by simpa using Ne.symm hn
      have hne' : (String.ofList (Text.lower s) == name) = false := by simpa using hn
      simp only [Bool.true_and, hne', Bool.false_eq_true, if_false, Option.or_none]
      split
      · rw [List.lookup_append, List.lookup_singleton, hne]
        simp
      · rfl

/-- A table leads from a name to its first spelling in mixed case. -/
theorem lookup_foldl_note (spellings : List (List Char)) (table : List (String × String))
    (name : String) : (spellings.foldl note table).lookup name =
      (table.lookup name).or ((spellings.find? (isSpellingOf name)).map String.ofList) := by
  induction spellings generalizing table with
  | nil => simp
  | cons s spellings ih =>
    rw [List.foldl_cons, ih, lookup_note, Option.or_assoc, List.find?_cons]
    cases isSpellingOf name s <;> simp

theorem respell_foldl (names : List (List Char)) (key : String) :
    respell (names.foldl note []) key =
      ((names.find? (isSpellingOf key)).map String.ofList).getD key := by
  rw [respell, lookup_foldl_note]
  rfl

theorem lowerString_respell (names : List (List Char)) {key : String} (h : lowerString key = key) :
    lowerString (respell (names.foldl note []) key) = key := by
  rw [respell_foldl]
  cases hf : names.find? (isSpellingOf key) with
  | none => exact h
  | some s =>
    have hs := List.find?_some hf
    rw [isSpellingOf, Bool.and_eq_true, beq_iff_eq] at hs
    have hlower : lowerString (String.ofList s) = String.ofList (Text.lower s) := by
      rw [lowerString, String.toList_ofList]
    exact hlower.trans hs.2

theorem foldl_note_again {before : List (List Char)} {s : List Char} (h : s ∈ before)
    (after : List (List Char)) (table : List (String × String)) :
    (before ++ s :: after).foldl note table = (before ++ after).foldl note table := by
  have hknown : note (before.foldl note table) s = before.foldl note table := by
    rw [note]
    refine if_neg fun hnew => ?_
    rw [Bool.and_eq_true, Option.isNone_iff_eq_none, lookup_foldl_note, Option.or_eq_none_iff,
      Option.map_eq_none_iff, List.find?_eq_none] at hnew
    exact hnew.2.2 s h (by simp [isSpellingOf, hnew.1])
  rw [List.foldl_append, List.foldl_append, List.foldl_cons, hknown]

theorem upper_of_ascii {s : List Char} (h : ∀ c ∈ s, c.toNat < 0x80) :
    Text.upper s = s.map Char.toUpper := by
  rw [Text.upper, ← List.flatMap_singleton' (s.map Char.toUpper), List.flatMap_map]
  refine List.flatMap_congr fun c hc => ?_
  rw [Text.upperChar, if_pos (h c hc)]

theorem isMixedCase_of_ordinary {name : String} (h : isOrdinaryName name = true)
    (hne : lowerString name ≠ name) : Text.isMixedCase name.toList = true := by
  have hascii : ∀ c ∈ name.toList, c.toNat < 0x80 := fun c hc =>
    ascii_of_isNameLetter (isNameLetter_of_mem (isLegible_of_ordinary h) c hc)
  obtain ⟨c, hc, hlower⟩ := List.any_eq_true.mp (Bool.and_eq_true _ _ ▸ h : _ ∧ _).2
  rw [Text.isMixedCase, Bool.and_eq_true, bne_iff_ne, bne_iff_ne]
  refine ⟨fun he => hne ?_, fun he => ?_⟩
  · rw [← String.toList_inj, Text.lowerString, String.toList_ofList]
    exact he.symm
  · -- a small letter is not its own capital
    rw [upper_of_ascii hascii] at he
    have hmap : name.toList.map Char.toUpper = name.toList.map id := by rw [List.map_id, ← he]
    have hsmall : c.isLower = true → c.toUpper ≠ c :=
      of_ascii (P := fun c => c.isLower = true → c.toUpper ≠ c) (by decide) (hascii c hc)
    exact hsmall hlower (List.map_inj_left.mp hmap c hc)

/-- Where each of some names has one spelling among them, all of them get theirs back. -/
theorem respell_foldl_note {names : List String} (h : ∀ name ∈ names, isOrdinaryName name = true)
    (once : ∀ a ∈ names, ∀ b ∈ names, lowerString a = lowerString b → a = b) {name : String}
    (hn : name ∈ names) :
    respell ((names.map String.toList).foldl note []) (lowerString name) = name := by
  rw [respell, lookup_foldl_note]
  cases hf : (names.map String.toList).find? (isSpellingOf (lowerString name)) with
  | some s =>
    obtain ⟨other, ho, rfl⟩ := List.mem_map.mp (List.mem_of_find?_eq_some hf)
    have hs := List.find?_some hf
    rw [isSpellingOf, Bool.and_eq_true, beq_iff_eq] at hs
    simp [once other ho name hn hs.2]
  | none =>
    have hnone := List.find?_eq_none.mp hf name.toList (List.mem_map_of_mem hn)
    by_contra hne
    refine hnone ?_
    rw [isSpellingOf, Bool.and_eq_true]
    exact ⟨isMixedCase_of_ordinary (h name hn) (by simpa using hne), beq_self_eq_true _⟩

-- ---------------------------------------------------------------------------
-- Names in a tag

variable {t : Tag} {c : Char}

theorem isNameChar_of_letter (h : isNameLetter c = true) : isNameChar c = true :=
  of_ascii (P := fun c => isNameLetter c = true → isNameChar c = true) (by decide)
    (ascii_of_isNameLetter h) h

theorem takeWhile_name {letters : List Char} (h : ∀ d ∈ letters, isNameLetter d = true)
    (hc : isNameChar c = false) (rest : List Char) :
    (letters ++ c :: rest).takeWhile isNameChar = letters := by
  rw [List.takeWhile_append_of_pos fun d hd => isNameChar_of_letter (h d hd),
    List.takeWhile_cons_of_neg (by simp [hc]), List.append_nil]

theorem name?_written {name : String} (h : isLegible name = true) (hc : isNameChar c = false)
    (rest : List Char) : name? (name.toList ++ c :: rest) = some name.toList := by
  obtain ⟨d, letters, hn, hd, hletters⟩ := exists_of_isLegible h
  rw [hn, List.cons_append, name?, if_pos hd,
    takeWhile_name (List.forall_mem_cons.mp hletters).2 hc]

/-- A start tag behind its name, with a space for each value. -/
def heldOf (t : Tag) : List Char :=
  t.attributes.flatMap (fun (name, _) => ' ' :: (name.toList ++ ['=', ' '])) ++
    if t.void then ['/'] else []

theorem unquotedRest?_append {s : List Char} (h : ∀ c ∈ s, c ∉ ['>', '"', '\''])
    (rest : List Char) : unquotedRest? (s ++ rest) =
      (unquotedRest? rest).map fun (held, behind) => (s ++ held, behind) := by
  induction s with
  | nil => simp
  | cons c s ih =>
    obtain ⟨hc, hs⟩ := List.forall_mem_cons.mp h
    simp only [List.mem_cons, List.not_mem_nil, or_false, not_or] at hc
    obtain ⟨hclose, hquote⟩ := hc
    rw [List.cons_append, unquotedRest?, if_neg hclose, if_neg (not_or.mpr hquote), ih hs,
      Option.map_map]
    rfl

theorem unquotedRest?_quoted {quote : Char} (hq : quote = '"' ∨ quote = '\'')
    {s inner after : List Char} (h : Text.cutAtChar quote s = some (inner, after)) :
    unquotedRest? (quote :: s) =
      (unquotedRest? after).map fun (held, behind) => (' ' :: held, behind) := by
  have hclose : quote ≠ '>' := by rcases hq with rfl | rfl <;> decide
  rw [unquotedRest?, if_neg hclose, if_pos hq]
  split
  · rename_i hcut
    cases h.symm.trans hcut
    rfl
  · rename_i hcut
    cases h.symm.trans hcut

theorem unquotedRest?_unclosed {quote : Char} (hq : quote = '"' ∨ quote = '\'') {s : List Char}
    (h : Text.cutAtChar quote s = none) : unquotedRest? (quote :: s) = none := by
  have hclose : quote ≠ '>' := by rcases hq with rfl | rfl <;> decide
  rw [unquotedRest?, if_neg hclose, if_pos hq]
  split
  · rename_i hcut
    cases h.symm.trans hcut
  · rfl

theorem unquotedRest?_value {value : List Char} (h : '"' ∉ value) (rest : List Char) :
    unquotedRest? ('"' :: (value ++ '"' :: rest)) =
      (unquotedRest? rest).map fun (held, behind) => (' ' :: held, behind) :=
  unquotedRest?_quoted (.inl rfl) (Text.cutAtChar_append h rest)

theorem not_quote_of_letter (h : isNameLetter c = true) : c ∉ ['>', '"', '\''] :=
  of_ascii (P := fun c => isNameLetter c = true → c ∉ ['>', '"', '\'']) (by decide)
    (ascii_of_isNameLetter h) h

theorem unquotedRest?_attributes {attributes : List (String × AttributeValue)}
    (h : ∀ a ∈ attributes, Markup.isLegible a.1 = true ∧ isOrdinaryValue a.2 = true)
    (rest : List Char) : unquotedRest? (attributes.flatMap bareStyle.attributeText ++ rest) =
      (unquotedRest? rest).map fun (held, behind) =>
        (attributes.flatMap (fun (name, _) => ' ' :: (name.toList ++ ['=', ' '])) ++ held,
          behind) := by
  induction attributes with
  | nil => simp
  | cons a more ih =>
    obtain ⟨⟨hn, hv⟩, hmore⟩ := List.forall_mem_cons.mp h
    obtain ⟨name, value⟩ := a
    cases value with
    | text value =>
      have hquote : '"' ∉ value.toList := not_mem_of_lacks hv (by decide)
      have hname : ∀ c ∈ ' ' :: (name.toList ++ ['=']), c ∉ ['>', '"', '\''] := by
        have hletters := isNameLetter_of_mem hn
        refine List.forall_mem_cons.mpr ⟨by decide, List.forall_mem_append.mpr ⟨?_, by decide⟩⟩
        exact fun c hc => not_quote_of_letter (hletters c hc)
      have hwritten (s : List Char) : bareStyle.attributeText (name, .text value) ++ s =
          ' ' :: (name.toList ++ ['=']) ++ '"' :: (value.toList ++ '"' :: s) := by
        rw [OpenTag.attributeText_bare name value hquote]
        simp
      rw [List.flatMap_cons, List.append_assoc, hwritten, unquotedRest?_append hname,
        unquotedRest?_value hquote, ih hmore]
      simp [Option.map_map, Function.comp_def]
    | _ => cases hv

theorem unquotedRest?_behindName (h : t.Tidy) (rest : List Char) :
    unquotedRest? (Part.behindName t ++ rest) = some (heldOf t, rest) := by
  have hclose : unquotedRest? ('>' :: rest) = some ([], rest) := by
    rw [unquotedRest?, if_pos rfl]
  have hattributes : bareStyle.attributes t.attributes =
    t.attributes.flatMap bareStyle.attributeText := rfl
  rw [Part.behindName, List.append_assoc, hattributes, unquotedRest?_attributes h.attributes,
    Part.ending, heldOf]
  cases t.void with
  | true =>
    have hslash : unquotedRest? ('/' :: '>' :: rest) = some (['/'], rest) := by
      rw [← List.singleton_append, unquotedRest?_append (by decide), hclose]
      rfl
    simp [hslash]
  | false => simp [hclose]

theorem startTag?_written (h : t.Tidy) (rest : List Char) :
    startTag? ((Part.startTag t).write ++ rest) = some (t.name.toList, heldOf t, rest) := by
  obtain ⟨c, tail, hbehind, hc⟩ := h.exists_behindName
  have hstop : ∀ c ∈ [' ', '/', '>'], isNameChar c = false := by decide
  have hname := name?_written h.legible (hstop c hc) (tail ++ rest)
  rw [Part.write_startTag, List.cons_append, List.append_assoc, startTag?,
    skipBlanks_of_isLegible h.legible, hbehind, List.cons_append, hname]
  simp only [List.drop_left]
  rw [← List.cons_append, ← hbehind, unquotedRest?_behindName h]
  rfl

theorem startTag?_of_ne {s : List Char} (h : c ≠ '<') : startTag? (c :: s) = none := by
  unfold startTag?
  split
  · rename_i hs
    exact absurd (List.cons.inj hs).1 h
  · rfl

theorem endTag?_of_ne {s : List Char} (h : c ≠ '<') : endTag? (c :: s) = none := by
  unfold endTag?
  split
  · rename_i hs
    exact absurd (List.cons.inj hs).1 h
  · rfl

-- ---------------------------------------------------------------------------
-- Names in a document

theorem startTags_nil : startTags [] = [] :=
  Text.findAll_nil

theorem startTags_of_none {rest : List Char} (h : startTag? (c :: rest) = none) :
    startTags (c :: rest) = startTags rest := by
  refine Text.findAll_of_none ?_
  split
  · rename_i hs
    cases h.symm.trans hs
  · rfl

theorem startTags_of_not_mem {s : List Char} (h : '<' ∉ s) (rest : List Char) :
    startTags (s ++ rest) = startTags rest := by
  induction s with
  | nil => rfl
  | cons c s ih =>
    simp only [List.mem_cons, not_or] at h
    rw [List.cons_append, startTags_of_none (startTag?_of_ne (Ne.symm h.1)), ih h.2]

theorem startTags_of_some {s name held rest : List Char}
    (h : startTag? s = some (name, held, rest)) : startTags s = (name, held) :: startTags rest := by
  cases s with
  | nil => cases h
  | cons c s =>
    refine @Text.findAll_of_some c s _ _ ⟨(name, held), rest, length_of_startTag? h⟩ ?_
    split
    · rename_i hs
      cases h.symm.trans hs
      rfl
    · rename_i hs
      cases h.symm.trans hs

theorem startTags_written (h : t.Tidy) (rest : List Char) :
    startTags ((Part.startTag t).write ++ rest) = (t.name.toList, heldOf t) :: startTags rest :=
  startTags_of_some (startTag?_written h rest)

theorem everywhere_of_not_mem {α : Type} {look : List Char → Option α}
    (hlook : ∀ c s, c ≠ '<' → look (c :: s) = none) {s : List Char} (h : '<' ∉ s)
    (rest : List Char) : everywhere look (s ++ rest) = everywhere look rest := by
  induction s with
  | nil => rfl
  | cons c s ih =>
    simp only [List.mem_cons, not_or] at h
    rw [List.cons_append, everywhere, hlook c _ (Ne.symm h.1), ih h.2]
    rfl

theorem startTags_of_not_started {p : Part} (h : p.Tidy) (ho : p.started? = none)
    (rest : List Char) : startTags (p.write ++ rest) = startTags rest := by
  cases ht : p.isText with
  | true => exact startTags_of_not_mem (h.not_mem_text ht) rest
  | false =>
    obtain ⟨inside, hi, hn⟩ := h.exists_inside ht
    have hnone : startTag? ('<' :: (inside ++ rest)) = none := by
      cases p with
      | leaf kind content =>
        cases kind with
        | text => cases ht
        | comment =>
          obtain rfl := (List.cons.inj hi).2
          rfl
        | leadingDocType =>
          obtain rfl := (List.cons.inj hi).2
          rfl
        | _ => exact absurd h id
      | startTag t => cases ho
      | endTag t =>
        obtain rfl := (List.cons.inj hi).2
        rfl
    rw [hi, List.cons_append, startTags_of_none hnone, startTags_of_not_mem hn]

theorem startTags_parts {parts : List Part} (h : ∀ p ∈ parts, p.Tidy) :
    startTags (parts.flatMap Part.write) =
      (parts.filterMap Part.started?).map fun t => (t.name.toList, heldOf t) := by
  induction parts with
  | nil => exact startTags_nil
  | cons p parts ih =>
    obtain ⟨hp, hparts⟩ := List.forall_mem_cons.mp h
    rw [List.flatMap_cons]
    cases p with
    | startTag t =>
      rw [startTags_written hp, ih hparts]
      rfl
    | _ =>
      rw [startTags_of_not_started hp rfl, ih hparts]
      rfl

theorem endTag?_written {p : Part} (h : p.Tidy) (ht : p.isText = false) (rest : List Char) :
    endTag? (p.write ++ rest) = p.ended?.map (·.name.toList) := by
  cases p with
  | leaf kind content =>
    cases kind with
    | text => cases ht
    | comment => rfl
    | leadingDocType => rfl
    | _ => exact absurd h id
  | startTag t =>
    have h : t.Tidy := h
    obtain ⟨c, letters, hn, -, hletters⟩ := exists_of_isLegible h.legible
    obtain ⟨-, -, -, -, hslash, -⟩ := of_isNameLetter (hletters c List.mem_cons_self)
    rw [Part.write_startTag, List.cons_append, List.append_assoc, endTag?,
      skipBlanks_of_isLegible h.legible, hn]
    split
    · rename_i hs
      exact absurd (List.cons.inj hs).1 hslash
    · rfl
  | endTag t =>
    have h : t.Tidy := h.1
    have hwritten :
        (Part.endTag t).write ++ rest = '<' :: '/' :: (t.name.toList ++ '>' :: rest) := by
      simp [Part.write, Style.endTag]
    have hslash : skipBlanks ('/' :: (t.name.toList ++ '>' :: rest)) =
        '/' :: (t.name.toList ++ '>' :: rest) := rfl
    rw [hwritten, endTag?, hslash]
    simp only [skipBlanks_of_isLegible h.legible]
    exact name?_written h.legible rfl rest

theorem endTags_parts {parts : List Part} (h : ∀ p ∈ parts, p.Tidy) :
    everywhere endTag? (parts.flatMap Part.write) =
      (parts.filterMap Part.ended?).map (·.name.toList) := by
  induction parts with
  | nil => rfl
  | cons p parts ih =>
    obtain ⟨hp, hparts⟩ := List.forall_mem_cons.mp h
    have hlook (c : Char) (s : List Char) (hc : c ≠ '<') : endTag? (c :: s) = none :=
      endTag?_of_ne hc
    rw [List.flatMap_cons]
    cases ht : p.isText with
    | true =>
      have ho : p.ended? = none := by
        cases p with
        | endTag => cases ht
        | _ => rfl
      rw [everywhere_of_not_mem hlook (hp.not_mem_text ht), ih hparts,
        List.filterMap_cons_none ho]
    | false =>
      obtain ⟨inside, hi, hn⟩ := hp.exists_inside ht
      have hfound := endTag?_written hp ht (parts.flatMap Part.write)
      rw [hi, List.cons_append] at hfound ⊢
      rw [everywhere, hfound, everywhere_of_not_mem hlook hn, ih hparts, List.filterMap_cons]
      cases p.ended? <;> rfl

theorem attribute?_of_not_blank (h : isBlank c = false) (s : List Char) :
    attribute? (c :: s) = none := by
  cases s with
  | nil => rfl
  | cons d s => simp [attribute?, h]

theorem everywhere_of_not_blank {s : List Char} (h : ∀ c ∈ s, isBlank c = false)
    (rest : List Char) : everywhere attribute? (s ++ rest) = everywhere attribute? rest := by
  induction s with
  | nil => rfl
  | cons c s ih =>
    obtain ⟨hc, hs⟩ := List.forall_mem_cons.mp h
    rw [List.cons_append, everywhere, attribute?_of_not_blank hc, ih hs]
    rfl

theorem attribute?_written {name : String} (h : isLegible name = true) (rest : List Char) :
    attribute? (' ' :: (name.toList ++ '=' :: rest)) = some name.toList := by
  obtain ⟨c, letters, hn, hc, hletters⟩ := exists_of_isLegible h
  have hspace : isBlank ' ' = true := rfl
  rw [hn, List.cons_append, attribute?, takeWhile_name (List.forall_mem_cons.mp hletters).2 rfl]
  simp [hspace, hc]

theorem attributes_held {attributes : List (String × AttributeValue)}
    (h : ∀ a ∈ attributes, isLegible a.1 = true) {ending : List Char}
    (he : ending = [] ∨ ending = ['/']) :
    everywhere attribute?
        (attributes.flatMap (fun (name, _) => ' ' :: (name.toList ++ ['=', ' '])) ++ ending) =
      attributes.map (·.1.toList) := by
  induction attributes with
  | nil => rcases he with rfl | rfl <;> rfl
  | cons a more ih =>
    obtain ⟨hn, hmore⟩ := List.forall_mem_cons.mp h
    obtain ⟨name, value⟩ := a
    have hletters : ∀ c ∈ name.toList ++ ['='], isBlank c = false := by
      refine List.forall_mem_append.mpr ⟨fun c hc => ?_, by decide⟩
      exact (of_isNameLetter (isNameLetter_of_mem hn c hc)).2.2.2.1
    generalize hrest :
      more.flatMap (fun (name, _) => ' ' :: (name.toList ++ ['=', ' '])) ++ ending = rest at ih
    -- behind the space in the place of the value there is no name yet
    have hspace : attribute? (' ' :: rest) = none := by
      subst hrest
      cases more with
      | nil => rcases he with rfl | rfl <;> rfl
      | cons b more => rfl
    have hwritten : (⟨name, value⟩ :: more).flatMap (fun (name, _) =>
        ' ' :: (name.toList ++ ['=', ' '])) ++ ending =
          ' ' :: (name.toList ++ ['='] ++ ' ' :: rest) := by
      rw [List.flatMap_cons, List.append_assoc, hrest]
      simp
    have hfound : attribute? (' ' :: (name.toList ++ ['='] ++ ' ' :: rest)) = some name.toList := by
      rw [List.append_assoc]
      exact attribute?_written hn _
    rw [hwritten, everywhere, hfound, everywhere_of_not_blank hletters, everywhere, hspace, ih hmore]
    rfl

theorem attributes_heldOf (h : t.Tidy) :
    everywhere attribute? (heldOf t) = t.attributes.map (·.1.toList) := by
  refine attributes_held (fun a ha => (h.attributes a ha).1) ?_
  cases t.void with
  | true => exact .inr rfl
  | false => exact .inl rfl

-- ---------------------------------------------------------------------------
-- Names of a forest

/-- The names of the elements and of their attributes; those in end tags come again. -/
theorem ofText_parts {parts : List Part} (h : ∀ p ∈ parts, p.Tidy) {text : String}
    (written : text.toList = parts.flatMap Part.write) :
    ofText text =
      ⟨(((parts.filterMap Part.started? ++ parts.filterMap Part.ended?).map (·.name)).map
          String.toList).foldl note [],
        (((parts.filterMap Part.started?).flatMap fun t => t.attributes.map (·.1)).map
          String.toList).foldl note []⟩ := by
  have hheld : ((parts.filterMap Part.started?).map fun t => (t.name.toList, heldOf t)).flatMap
      (fun (_, held) => everywhere attribute? held) =
        ((parts.filterMap Part.started?).flatMap fun t => t.attributes.map (·.1)).map
          String.toList := by
    rw [List.flatMap_map, List.map_flatMap]
    refine List.flatMap_congr fun t ht => ?_
    obtain ⟨p, hp, ht⟩ := List.mem_filterMap.mp ht
    cases p with
    | startTag u =>
      cases ht
      refine (attributes_heldOf (h _ hp)).trans ?_
      rw [List.map_map]
      rfl
    | _ => cases ht
  rw [ofText, written, startTags_parts h, endTags_parts h, hheld]
  simp [Function.comp_def]

theorem restore_reread {s : Spelling} {t : Tag}
    (name : respell s.tags (lowerString t.name) = t.name)
    (attributes : ∀ a ∈ t.attributes,
      respell s.attributes (lowerString a.1) = a.1 ∧ AttributeValue.text a.2.shown = a.2)
    (nodup : (t.attributes.map (·.1)).Nodup) (void : t.reread.void = t.void) :
    s.restore t.reread = t := by
  have hback : (t.attributes.map fun (name, value) =>
      (lowerString name, AttributeValue.text value.shown)).map
        (fun (name, value) => (respell s.attributes name, value)) = t.attributes := by
    rw [List.map_map]
    refine (List.map_congr_left fun a ha => ?_).trans (List.map_id' _)
    obtain ⟨hn, hv⟩ := attributes a ha
    exact Prod.ext hn hv
  have hlower : ((t.attributes.map fun (name, value) =>
      (lowerString name, AttributeValue.text value.shown)).map (·.1)).Nodup := by
    rw [← hback] at nodup
    refine List.Nodup.of_map (respell s.attributes) ?_
    rw [List.map_map] at nodup ⊢
    exact nodup
  have htags : t.reread.attributes = t.attributes.map fun (name, value) =>
      (lowerString name, AttributeValue.text value.shown) := Table.ofList_of_nodup hlower
  have hname : respell s.tags t.reread.name = t.name := name
  rw [restore, htags, hback, Table.ofList_of_nodup nodup, hname, void]

/-- Elements and attributes that are spelled in one way get that spelling back. -/
theorem respell_ordinary {f : Forest α} (h : f.Headed) (once : f.SpelledOnce) {text : String}
    (written : text.toList = bareStyle.write none f) {e : Element α} (he : e ∈ f.descendants) :
    respell (ofText text).tags (lowerString e.tag.name) = e.tag.name ∧
      ∀ a ∈ e.tag.attributes, respell (ofText text).attributes (lowerString a.1) = a.1 := by
  have hstarted := h.tidy.started_parts
  have htags : ∀ t ∈ f.parts.filterMap Part.started? ++ f.parts.filterMap Part.ended?,
      ∃ x ∈ f.descendants, x.tag = t := by
    intro t ht
    rcases List.mem_append.mp ht with ht | ht
    · exact List.mem_map.mp (hstarted ▸ ht)
    · exact List.mem_map.mp (f.ended_parts t ht)
  have hordinary := h.tags
  rw [ofText_parts h.tidy.parts (written.trans (h.tidy.write none))]
  refine ⟨?_, fun a ha => ?_⟩
  · refine respell_foldl_note (fun name hn => ?_) (fun a ha b hb hab => ?_) ?_
    · obtain ⟨t, ht, rfl⟩ := List.mem_map.mp hn
      obtain ⟨x, hx, rfl⟩ := htags t ht
      exact (hordinary x hx).name
    · obtain ⟨t, ht, rfl⟩ := List.mem_map.mp ha
      obtain ⟨u, hu, rfl⟩ := List.mem_map.mp hb
      obtain ⟨x, hx, rfl⟩ := htags t ht
      obtain ⟨y, hy, rfl⟩ := htags u hu
      exact (once x hx y hy).1 hab
    · rw [hstarted]
      exact List.mem_map_of_mem (List.mem_append_left _ (List.mem_map_of_mem he))
  · refine respell_foldl_note (fun name hn => ?_) (fun a ha b hb hab => ?_) ?_
    · obtain ⟨t, ht, hn⟩ := List.mem_flatMap.mp hn
      obtain ⟨x, hx, rfl⟩ := htags t (List.mem_append_left _ ht)
      obtain ⟨b, hb, rfl⟩ := List.mem_map.mp hn
      exact ((hordinary x hx).attributes b hb).1
    · obtain ⟨t, ht, ha⟩ := List.mem_flatMap.mp ha
      obtain ⟨u, hu, hb⟩ := List.mem_flatMap.mp hb
      obtain ⟨x, hx, rfl⟩ := htags t (List.mem_append_left _ ht)
      obtain ⟨y, hy, rfl⟩ := htags u (List.mem_append_left _ hu)
      obtain ⟨c, hc, rfl⟩ := List.mem_map.mp ha
      obtain ⟨d, hd, rfl⟩ := List.mem_map.mp hb
      exact (once x hx y hy).2 c hc d hd hab
    · rw [hstarted]
      exact List.mem_flatMap.mpr ⟨e.tag, List.mem_map_of_mem he, List.mem_map_of_mem ha⟩

end Mailgrid.Markup.Spelling
