import Mailgrid.Document
import Mailgrid.Proofs.Markup.Classes
import Mailgrid.Proofs.Markup.Clear
import Mailgrid.Proofs.Markup.Tidy

/-!
# Tidy documents are read

Reading a tidy document gives a forest with names in lower case and the
placeholder for each ampersand. It is clear: its tags are plain, and its texts and
comments can be written and read again.
-/

namespace Mailgrid

open Markup (AttributeValue Forest Growth Spelling Tag bareStyle lacks not_mem_of_lacks)

-- ---------------------------------------------------------------------------
-- Placeholders

namespace Format

/-- Characters with an ampersand for each placeholder. -/
def restoredChars (s : List Char) : List Char :=
  s.flatMap fun c => if c = '\ue000' then ['&'] else [c]

theorem toList_restore (text : String) :
    (standard.restore text).toList = restoredChars text.toList := by
  have h : standard.restore text =
      String.ofList (Text.replaceAll '\ue000' [] ['&'] text.toList) := rfl
  rw [h, String.toList_ofList, Text.replaceAll_char]
  rfl

theorem restoredChars_of_not_mem {s : List Char} (h : '\ue000' ∉ s) : restoredChars s = s := by
  refine (List.flatMap_congr fun c hc => ?_).trans (List.flatMap_singleton' s)
  have hne : c ≠ '\ue000' := fun he => h (he ▸ hc)
  rw [if_neg hne]

theorem restore_of_not_mem {text : String} (h : '\ue000' ∉ text.toList) :
    standard.restore text = text := by
  rw [← String.toList_inj, toList_restore, restoredChars_of_not_mem h]

theorem restoredChars_protectedChars (s : List Char) :
    restoredChars (protectedChars s) = restoredChars s := by
  induction s with
  | nil => rfl
  | cons c s ih =>
    have hc : restoredChars (if c = '&' then ['\ue000'] else [c]) =
        if c = '\ue000' then ['&'] else [c] := by
      by_cases hc : c = '&'
      · subst hc
        rfl
      · rw [if_neg hc, restoredChars, List.flatMap_singleton]
    rw [protectedChars, List.flatMap_cons, restoredChars, List.flatMap_append, restoredChars,
      List.flatMap_cons]
    exact congr (congrArg _ hc) ih

theorem all_isSpace_protect (s : String) :
    (standard.protect s).toList.all Growth.isSpace = s.toList.all Growth.isSpace := by
  have hsame : (Growth.isSpace ∘ fun c => if c = '&' then '\ue000' else c) = Growth.isSpace := by
    funext c
    by_cases hc : c = '&'
    · subst hc
      rfl
    · simp [hc]
  rw [toList_protect, protectedChars_eq_map, List.all_map, hsame]

theorem protect_ne_empty {s : String} (h : s ≠ "") : standard.protect s ≠ "" := by
  intro he
  have hnil : (standard.protect s).toList = [] := by rw [he]; rfl
  rw [toList_protect, protectedChars_eq_map, List.map_eq_nil_iff] at hnil
  exact h (String.toList_eq_nil_iff.mp hnil)

end Format

-- ---------------------------------------------------------------------------
-- Forests with placeholders

namespace Markup

def AttributeValue.veiled : AttributeValue → AttributeValue
  | .text value => .text (Format.standard.protect value)
  | value => value

theorem AttributeValue.shown_veiled {value : AttributeValue} (h : isOrdinaryValue value = true) :
    .text value.veiled.shown = value.veiled := by
  cases value with
  | text => rfl
  | _ => cases h

def Tag.veiled (t : Tag) : Tag :=
  { t with attributes := t.attributes.map fun (name, value) => (name, value.veiled) }

/-- A forest with the placeholder for each ampersand in its texts, comments and values. -/
def Forest.veiled : Forest α → Forest α
  | nil => nil
  | leaf m kind content next => leaf m kind (Format.standard.protect content) next.veiled
  | element m tag children next => element m tag.veiled children.veiled next.veiled

open Format (protectedChars protectedChars_append protectedChars_of_not_mem toList_protect)

theorem protectedChars_attributes {attributes : List (String × AttributeValue)}
    (h : ∀ a ∈ attributes, Markup.isLegible a.1 = true ∧ isOrdinaryValue a.2 = true) :
    (attributes.map fun (name, value) => (name, value.veiled)).flatMap bareStyle.attributeText =
      protectedChars (attributes.flatMap bareStyle.attributeText) := by
  induction attributes with
  | nil => rfl
  | cons a more ih =>
    obtain ⟨⟨hn, hv⟩, hmore⟩ := List.forall_mem_cons.mp h
    obtain ⟨name, value⟩ := a
    cases value with
    | text value =>
      have hquote : '"' ∉ value.toList := not_mem_of_lacks hv (by decide)
      have hquote' := Format.not_mem_protect (by decide) hquote
      have hname := protectedChars_of_not_mem
        (not_mem_of_isLegible hn isNameLetter_ampersand)
      have hwritten := OpenTag.attributeText_bare name value hquote []
      have hwritten' := OpenTag.attributeText_bare name (Format.standard.protect value) hquote' []
      rw [List.append_nil] at hwritten hwritten'
      have hsplit (v : List Char) : ' ' :: (name.toList ++ '=' :: '"' :: (v ++ ['"'])) =
          [' '] ++ (name.toList ++ (['=', '"'] ++ (v ++ ['"']))) := rfl
      rw [List.map_cons, List.flatMap_cons, List.flatMap_cons, protectedChars_append, ← ih hmore,
        hwritten, hsplit, protectedChars_append, protectedChars_append, protectedChars_append,
        protectedChars_append, hname, ← toList_protect]
      exact congrArg (· ++ _) hwritten'
    | _ => cases hv

theorem Tag.Tidy.startTag_veiled {t : Tag} (h : t.Tidy) {ending : List Char}
    (he : '&' ∉ ending) :
    bareStyle.startTag t.veiled ending = protectedChars (bareStyle.startTag t ending) := by
  have hname := protectedChars_of_not_mem (not_mem_of_isLegible h.legible isNameLetter_ampersand)
  have hsplit (attributes : List Char) : '<' :: t.name.toList ++ attributes ++ ending =
      ['<'] ++ t.name.toList ++ attributes ++ ending := rfl
  have hveiled : bareStyle.attributes t.veiled.attributes =
      protectedChars (bareStyle.attributes t.attributes) :=
    protectedChars_attributes h.attributes
  rw [Style.startTag, Style.startTag, hveiled, hsplit, protectedChars_append,
    protectedChars_append, protectedChars_append, hname, protectedChars_of_not_mem he]
  rfl

theorem Tag.Tidy.endTag_veiled {t : Tag} (h : t.Tidy) :
    Style.endTag t.veiled = protectedChars (Style.endTag t) := by
  have hwritten : '&' ∉ Style.endTag t := by
    simp [Style.endTag, not_mem_of_isLegible h.legible isNameLetter_ampersand]
  exact (protectedChars_of_not_mem hwritten).symm

namespace Forest

theorem isNil_veiled (f : Forest α) : f.veiled.isNil = f.isNil := by
  cases f <;> rfl

theorem Tidy.write_veiled {f : Forest α} (h : f.Tidy) (parent : Option String) :
    bareStyle.write parent f.veiled = protectedChars (bareStyle.write parent f) := by
  induction f generalizing parent with
  | nil => rfl
  | leaf m kind content next ih =>
    obtain ⟨htidy, hnext⟩ := h
    rw [veiled, Style.write, Style.write, protectedChars_append, ih hnext]
    cases kind with
    | text kind => rw [Style.leaf_text, Style.leaf_text, toList_protect]
    | comment =>
      have hleaf (content : String) : bareStyle.leaf parent .comment content =
          "<!--".toList ++ content.toList ++ "-->".toList := rfl
      rw [hleaf, hleaf, toList_protect, protectedChars_append, protectedChars_append]
      rfl
    | _ => exact absurd htidy id
  | element m tag children next ihc ih =>
    obtain ⟨htag, hhollow, hchildren, hnext⟩ := h
    cases hv : tag.void with
    | true =>
      cases children with
      | nil =>
        have hv' : tag.veiled.void = true := hv
        rw [veiled, veiled, Style.write_void parent m hv, Style.write_void parent m hv',
          protectedChars_append, htag.startTag_veiled (by decide), ih hnext]
      | _ => cases hhollow (by rw [hv, Bool.true_or])
    | false =>
      have hv' : tag.veiled.void = false := hv
      rw [veiled, Style.write_open parent m hv, Style.write_open parent m hv',
        protectedChars_append, protectedChars_append, protectedChars_append,
        htag.startTag_veiled (by decide), htag.endTag_veiled, ihc hchildren, ih hnext]
      rfl

theorem TidyBelow.write_veiled {f : Forest α} (h : f.TidyBelow) (parent : Option String) :
    bareStyle.write parent f.veiled = protectedChars (bareStyle.write parent f) := by
  unfold TidyBelow at h
  split at h
  · rename_i m name next
    have hleaf (content : String) : bareStyle.leaf parent .leadingDocType content =
        "<!DOCTYPE ".toList ++ content.toList ++ ['>'] := rfl
    rw [veiled, Style.write, Style.write, protectedChars_append, hleaf, hleaf, toList_protect,
      h.2.write_veiled, protectedChars_append, protectedChars_append]
    rfl
  · exact h.write_veiled parent

end Forest

-- ---------------------------------------------------------------------------
-- Forests with placeholders are read again

theorem Tag.Tidy.isLegible_veiled {t : Tag} (h : t.Tidy) :
    t.veiled.isLegible = true := by
  have hapart : reservedNames.contains (Text.lowerString t.name) = false := by
    have := h.apart
    rw [List.contains_cons, Bool.or_eq_false_iff] at this
    exact this.2
  have hattributes : t.veiled.attributes.all (fun (name, value) =>
      Markup.isLegible name && isLegibleValue value) = true := by
    rw [Tag.veiled, List.all_map]
    refine List.all_eq_true.mpr fun a ha => ?_
    obtain ⟨hn, hv⟩ := h.attributes a ha
    obtain ⟨name, value⟩ := a
    cases value with
    | text value =>
      have hquote := Format.not_mem_protect (by decide) (not_mem_of_lacks hv (c := '"') (by decide))
      have hampersand : '&' ∉ (Format.standard.protect value).toList := fun hm =>
        (Format.of_mem_protect hm).1 rfl
      simp [hn, AttributeValue.veiled, isLegibleValue, hquote, hampersand]
    | _ => cases hv
  have hname : t.veiled.name = t.name := rfl
  rw [Tag.isLegible, hname, hattributes, h.legible, hapart]
  rfl

theorem isPlain_protect {content : String} (h : '<' ∉ content.toList) :
    (Format.standard.protect content).toList.all Token.isPlain = true := by
  refine List.all_eq_true.mpr fun c hc => ?_
  have hopen := Format.not_mem_protect (by decide) h
  have hc' : c ≠ '<' := fun he => hopen (he ▸ hc)
  simp [Token.isPlain, hc', (Format.of_mem_protect hc).1]

namespace Forest

theorem Tidy.isLegible_veiled {f : Forest α} (h : f.Tidy) : f.veiled.isLegible = true := by
  induction f with
  | nil => rfl
  | leaf m kind content next ih =>
    obtain ⟨htidy, hnext⟩ := h
    rw [veiled, isLegible, ih hnext, Bool.and_true]
    cases kind with
    | text kind => exact isPlain_protect (not_mem_of_lacks htidy (by decide))
    | comment =>
      have hdash := Format.not_mem_protect (by decide)
        (not_mem_of_lacks htidy (c := '-') (by decide))
      simp [isLegibleLeaf, hdash]
    | _ => exact absurd htidy id
  | element m tag children next ihc ih =>
    obtain ⟨htag, hhollow, hchildren, hnext⟩ := h
    have hvoid : (tag.veiled.void || tag.veiled.reread.void) = (tag.void || tag.reread.void) := rfl
    rw [veiled, isLegible, htag.isLegible_veiled, ihc hchildren, ih hnext, isNil_veiled, hvoid]
    cases hv : tag.void || tag.reread.void with
    | true => rw [hhollow hv]; rfl
    | false => rfl

theorem TidyBelow.isLegible_veiled {f : Forest α} (h : f.TidyBelow) :
    f.veiled.isLegible = true := by
  unfold TidyBelow at h
  split at h
  · have hclose := Format.not_mem_protect (by decide) (not_mem_of_isLegible h.1 (c := '>') rfl)
    rw [veiled, isLegible, h.2.isLegible_veiled, Bool.and_true]
    simp [isLegibleLeaf, hclose]
  · exact h.isLegible_veiled

theorem tags_veiled (f : Forest α) :
    f.veiled.descendants.map (·.tag) = f.descendants.map fun e => e.tag.veiled := by
  induction f with
  | nil => rfl
  | leaf m kind content next ih => exact ih
  | element m tag children next ihc ih =>
    simp only [veiled, descendants, List.map_cons, List.map_append, ihc, ih]

end Forest

-- ---------------------------------------------------------------------------
-- Tags that were read are plain

theorem isPlainName_lowerString {name : String} (h : isLegible name = true) :
    isPlainName (Text.lowerString name) = true := by
  obtain ⟨c, letters, hn, hc, hletters⟩ := exists_of_isLegible h
  have hlower (c : Char) (hc : isNameLetter c = true) :
      (c.toLower.isLower || c.toLower.isDigit || c.toLower == '-') = true :=
    of_ascii (P := fun c => isNameLetter c = true →
      (c.toLower.isLower || c.toLower.isDigit || c.toLower == '-') = true) (by decide)
      (ascii_of_isNameLetter hc) hc
  have hstart : c.toLower.isLower = true :=
    of_ascii (P := fun c => c.isAlpha = true → c.toLower.isLower = true) (by decide)
      (ascii_of_isNameLetter (hletters c List.mem_cons_self)) hc
  rw [isPlainName, toList_lowerString h, List.all_map, hn, Bool.and_eq_true]
  exact ⟨hstart, List.all_eq_true.mpr fun d hd => hlower d (hletters d hd)⟩

theorem Tag.Tidy.plain_veiled {t : Tag} (h : t.Tidy) : t.veiled.reread.Plain := by
  have hapart := h.apart
  rw [List.contains_cons, Bool.or_eq_false_iff] at hapart
  obtain ⟨hnodup, hmem⟩ := Table.ofList_spec
    (t.veiled.attributes.map fun a => (Text.lowerString a.1, AttributeValue.text a.2.shown))
  refine ⟨isPlainName_lowerString h.legible, hapart.2, fun a ha => ?_, hnodup, rfl⟩
  obtain ⟨b, hb, rfl⟩ := List.mem_map.mp (hmem a ha)
  obtain ⟨x, hx, rfl⟩ := List.mem_map.mp hb
  obtain ⟨hn, hv⟩ := h.attributes x hx
  refine ⟨isPlainName_lowerString hn, ?_⟩
  obtain ⟨name, value⟩ := x
  cases value with
  | text value =>
    have hquote := Format.not_mem_protect (by decide) (not_mem_of_lacks hv (c := '"') (by decide))
    have hampersand : '&' ∉ (Format.standard.protect value).toList := fun hm =>
      (Format.of_mem_protect hm).1 rfl
    simp [AttributeValue.veiled, AttributeValue.shown, isLegibleValue, hquote, hampersand]
  | _ => cases hv

theorem Tag.Tidy.get?_veiled {t : Tag} (h : t.Tidy) (key : String) :
    t.veiled.reread.get? key = (t.reread.get? key).map AttributeValue.veiled := by
  have hentries : (t.veiled.attributes.map fun a => (Text.lowerString a.1,
      AttributeValue.text a.2.shown)) = (t.attributes.map fun a => (Text.lowerString a.1,
        AttributeValue.text a.2.shown)).map fun a => (a.1, a.2.veiled) := by
    rw [Tag.veiled, List.map_map, List.map_map]
    refine List.map_congr_left fun a ha => ?_
    have hv := (h.attributes a ha).2
    obtain ⟨name, value⟩ := a
    cases value with
    | text value => rfl
    | _ => cases hv
  have hlookup (entries : List (String × AttributeValue)) :
      (entries.map fun a => (a.1, a.2.veiled)).lookup key =
        (entries.lookup key).map AttributeValue.veiled := by
    induction entries with
    | nil => rfl
    | cons a entries ih =>
      rw [List.map_cons, List.lookup_cons, List.lookup_cons, ih]
      split <;> rfl
  have hread (t : Tag) : t.reread.get? key = (t.attributes.map fun a =>
      (Text.lowerString a.1, AttributeValue.text a.2.shown)).reverse.lookup key :=
    Table.lookup_ofList _ key
  rw [hread, hread, hentries, ← List.map_reverse, hlookup]

theorem Tag.Tidy.hasClass_veiled {t : Tag} (h : t.Tidy) {key : String}
    (hk : ∀ c ∈ key.toList, c ≠ '&' ∧ c ≠ '\ue000') :
    t.veiled.reread.hasClass key = t.reread.hasClass key := by
  have hclasses : t.veiled.reread.classes = t.reread.classes.map Format.standard.protect := by
    have hget := h.get?_veiled "class"
    unfold Tag.classes
    rw [hget]
    cases hv : t.reread.get? "class" with
    | none => rfl
    | some value =>
      obtain ⟨s, hs, -⟩ := h.plain_veiled.exists_text (hget.trans (congrArg _ hv))
      cases value with
      | text value =>
        have hblank (c : Char) :
            Text.isBlank (if c = '&' then '\ue000' else c) = Text.isBlank c := by
          split
          · rename_i hc
            rw [hc]
            rfl
          · rfl
        simp only [Option.map_some, AttributeValue.veiled, classesOf, AttributeValue.shown,
          Format.toList_protect, Format.protectedChars_eq_map, Text.words_map hblank, List.map_map]
        refine List.map_congr_left fun word _ => ?_
        rw [← String.toList_inj]
        simp [Format.toList_protect, Format.protectedChars_eq_map]
      | _ => cases hs
  have hself : Format.standard.protect key = key :=
    Format.protect_of_not_mem fun hm => (hk _ hm).1 rfl
  rw [Tag.hasClass, Tag.hasClass, hclasses, Bool.eq_iff_iff, List.contains_iff_mem,
    List.contains_iff_mem, List.mem_map]
  refine ⟨?_, fun hm => ⟨key, hm, hself⟩⟩
  rintro ⟨word, hword, he⟩
  have hno : '&' ∉ word.toList := by
    intro hm
    have hmem : '\ue000' ∈ (Format.standard.protect word).toList := by
      rw [Format.toList_protect, Format.protectedChars_eq_map]
      exact List.mem_map.mpr ⟨'&', hm, rfl⟩
    exact (hk _ (he ▸ hmem)).2 rfl
  rwa [← he, Format.protect_of_not_mem hno]
namespace Forest

variable {P : Tag → Prop} {f : Forest α}

theorem Tidy.clear_veiled (h : f.Tidy) (hP : ∀ e ∈ f.descendants, P e.tag.veiled.reread) :
    (f.veiled.mapTags Tag.reread).Clear P := by
  induction f with
  | nil => trivial
  | leaf m kind content next ih =>
    obtain ⟨htidy, hnext⟩ := h
    cases kind with
    | text kind => exact ⟨isPlain_protect (not_mem_of_lacks htidy (by decide)), ih hnext hP⟩
    | comment =>
      have hdash := Format.not_mem_protect (by decide)
        (not_mem_of_lacks htidy (c := '-') (by decide))
      exact ⟨⟨hdash, fun hm => (Format.of_mem_protect hm).1 rfl⟩, ih hnext hP⟩
    | _ => exact absurd htidy id
  | element m tag children next ihc ih =>
    obtain ⟨-, hhollow, hchildren, hnext⟩ := h
    simp only [descendants, List.forall_mem_cons, List.forall_mem_append] at hP
    refine ⟨hP.1, fun hv => ?_, ihc hchildren hP.2.1, ih hnext hP.2.2⟩
    have hvoid : tag.reread.void = true := hv
    rw [isNil_mapTags, isNil_veiled]
    exact hhollow (by rw [hvoid, Bool.or_true])

theorem Clear.leading (h : f.Clear P) : f.leading = f := by
  induction f with
  | nil => rfl
  | leaf m kind content next ih =>
    cases kind with
    | text | comment =>
      rw [Forest.leading, ih h.2]
      rfl
    | _ => exact absurd h id
  | element m tag children next _ ih => rw [Forest.leading, ih h.2.2.2]

theorem Clear.number (h : f.Clear P) (next : Nat) : (f.number next).1.Clear P := by
  rw [← clear_bare, bare_number, clear_bare]
  exact h

/-- A tidy document is read as a clear one. -/
theorem TidyBelow.clear_reread (h : f.TidyBelow)
    (hP : ∀ e ∈ f.descendants, P e.tag.veiled.reread) (next : Nat) :
    ((f.veiled.reread [] "").leading.number next).1.ClearBelow P := by
  have hclear {f : Forest α} (h : f.Tidy) (hP : ∀ e ∈ f.descendants, P e.tag.veiled.reread) :
      (f.veiled.reread [] "").Clear P :=
    Forest.clear_reread (h.clear_veiled hP) [] rfl
  unfold TidyBelow at h
  split at h
  · have hnext := hclear h.2 hP
    have hleading := hnext.leading.symm ▸ hnext
    exact hleading.number (next + 1)
  · have hread := hclear h hP
    rw [hread.leading]
    exact clearBelow_cases.mpr (.inl (hread.number next))

end Forest

end Markup

-- ---------------------------------------------------------------------------
-- Reading

namespace Document

variable {f : Forest α} {text : String}

theorem load_of_read {f : Forest Unit} (h : Format.standard.read text = .ok f) :
    load Format.standard text = .ok ⟨Format.standard, Spelling.ofText text,
      (f.leading.number 0).1, (f.leading.number 0).2⟩ :=
  bind_eq_ok.mpr ⟨f, h, rfl⟩

theorem load_tidy (h : f.TidyBelow) (written : text.toList = bareStyle.write none f) :
    load Format.standard text = .ok ⟨Format.standard, Spelling.ofText text,
      ((f.veiled.reread [] "").leading.number 0).1,
      ((f.veiled.reread [] "").leading.number 0).2⟩ := by
  refine load_of_read ?_
  rw [Format.read_standard, written, ← h.write_veiled none]
  exact Markup.parse_written h.isLegible_veiled none

end Document

end Mailgrid
