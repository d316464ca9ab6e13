import Mailgrid.Proofs.Markup.Tidy
import Mailgrid.VoidElement

/-!
# Void elements that are closed already

In a tidy document every void element is one tag with a slash, and every
other element has an end tag. So nothing is written anew before the document is
read, nor when it is written.
-/

namespace Mailgrid.VoidElement

open Mailgrid.Markup (Part Tag bareStyle isNameLetter)
open Mailgrid.Text (isBlank trimEnd lowerString)

theorem replaceSpots_eq_self {look : List Char → Option Spot}
    {shorter : ∀ {s : List Char} {spot : Spot}, look s = some spot → spot.rest.length < s.length}
    {write : Spot → List Char} {text : List Char}
    (h : ∀ s spot, s <:+ text → look s = some spot → write spot ++ spot.rest = s) :
    replaceSpots look shorter write text = text := by
  refine Text.substitute_eq_self fun s m hs hm => ?_
  split at hm
  · rename_i spot hspot
    cases hm
    exact h s spot hs hspot
  · cases hm

theorem trimEnd_blanks {blanks : List Char} (h : ∀ c ∈ blanks, isBlank c = true) :
    trimEnd blanks = [] := by
  induction blanks with
  | nil => rfl
  | cons c blanks ih =>
    obtain ⟨hc, hblanks⟩ := List.forall_mem_cons.mp h
    simp [trimEnd, ih hblanks, hc]

theorem trimEnd_append_blanks {c : Char} {blanks : List Char} (hc : isBlank c = false)
    (h : ∀ d ∈ blanks, isBlank d = true) (s : List Char) :
    trimEnd (s ++ c :: blanks) = s ++ [c] := by
  induction s with
  | nil => simp [trimEnd, trimEnd_blanks h, hc]
  | cons d s ih =>
    rw [List.cons_append, trimEnd, ih]
    cases s <;> rfl

-- ---------------------------------------------------------------------------
-- Void start tags

/-- What stands in a start tag that is closed at once, behind its name. -/
def innerOf (t : Tag) : List Char :=
  bareStyle.attributes t.attributes ++ ['/']

theorem behindName_of_void {t : Tag} (h : t.void = true) :
    Part.behindName t = innerOf t ++ ['>'] := by
  simp [Part.behindName, Part.ending, h, innerOf]

theorem not_mem_innerOf {t : Tag} (h : t.Tidy) : '>' ∉ innerOf t := by
  simp [innerOf, h.not_mem_attributes]

theorem not_isNameLetter_of_isApart {inner : List Char} (h : isApart inner = true)
    (rest : List Char) : ∀ c ∈ (inner ++ '>' :: rest).head?, isNameLetter c = false := by
  intro c hc
  cases inner with
  | nil =>
    cases hc
    rfl
  | cons d inner =>
    cases hc
    cases hd : isNameLetter c with
    | false => rfl
    | true =>
      obtain ⟨-, -, -, hblank, -⟩ := Markup.of_isNameLetter hd
      rw [isApart, hblank] at h
      cases h

variable {parts : List Part} {s : List Char} {spot : Spot}

theorem endTag_of_slash {p : Part} (h : p.Tidy) (ht : p.isText = false)
    {s rest : List Char} (hs : '<' :: '/' :: s = p.write ++ rest) :
    ∃ t : Tag, t.Tidy ∧ t.void = false ∧ s = t.name.toList ++ '>' :: rest := by
  cases p with
  | leaf kind content =>
    cases kind with
    | text => cases ht
    | comment => cases hs
    | leadingDocType => cases hs
    | _ => exact absurd h id
  | startTag t =>
    have h : t.Tidy := h
    obtain ⟨c, more, hname, hc, -⟩ := Markup.exists_of_isLegible h.legible
    rw [Part.write_startTag, hname] at hs
    obtain rfl := (List.cons.inj (List.cons.inj hs).2).1
    cases hc
  | endTag t =>
    refine ⟨t, h.1, h.2, ?_⟩
    have hwritten : (Part.endTag t).write = '<' :: '/' :: (t.name.toList ++ ['>']) := rfl
    rw [hwritten, List.cons_append, List.cons_append, List.append_assoc] at hs
    exact (List.cons.inj (List.cons.inj hs).2).2

theorem of_startTag? (h : ∀ p ∈ parts, p.Tidy) (hs : s <:+ parts.flatMap Part.write)
    (hspot : startTag? s = some spot) : ∃ t rest, .startTag t :: rest <:+ parts ∧
      t.void = true ∧ spot = ⟨t.name.toList, innerOf t, rest.flatMap Part.write⟩ ∧
      s = '<' :: (t.name.toList ++ (innerOf t ++ '>' :: rest.flatMap Part.write)) := by
  unfold startTag? at hspot
  split at hspot
  · rename_i s
    obtain ⟨p, rest, hp, htext, he⟩ := Markup.exists_part_of_suffix h hs
    have hp' : p.Tidy := h p (hp.subset List.mem_cons_self)
    split at hspot
    · cases hspot
    · rename_i spelled after hn
      obtain ⟨name, hname, hspelled⟩ := List.exists_of_findSome?_eq_some hn
      split at hspot
      · rename_i inner behind hcut
        split at hspot
        · rename_i hapart
          have hend : ∀ c ∈ after.head?, isNameLetter c = false := by
            rw [Text.append_of_cutAtChar hcut]
            exact not_isNameLetter_of_isApart hapart behind
          have hunlike : ∀ name ∈ names, name.toList ≠ [] ∧ ∀ c ∈ ['!', ' ', '/', '>'],
              ∀ w ∈ name.toList, Text.isLike w c = false := by decide
          obtain ⟨hne, hunlike⟩ := hunlike name hname
          obtain ⟨t, rfl, hlower, rfl, rfl⟩ := hp'.of_spelling? htext he hspelled hne hunlike hend
          have ht : t.Tidy := hp'
          have hvoid : t.void = true := by
            rw [ht.void, String.toList_inj.mp hlower]
            exact List.contains_iff_mem.mpr hname
          rw [behindName_of_void hvoid, List.append_assoc] at hcut
          cases (Text.cutAtChar_append (not_mem_innerOf ht) _).symm.trans hcut
          cases hspot
          refine ⟨t, rest, hp, hvoid, rfl, ?_⟩
          rw [he, Part.write_startTag, behindName_of_void hvoid]
          simp
        · cases hspot
      · cases hspot
  · cases hspot

theorem startTag_of_lone? (h : lone? s = some spot) : startTag? s = some spot := by
  unfold lone? at h
  split at h
  · rename_i hs
    split at h
    · cases h
    · exact hs.trans h
  · cases h

theorem toLower_ne_close {c : Char} (h : isNameLetter c = true) :
    c.toLower ≠ Text.foldKey '>' :=
  Markup.of_ascii (P := fun c => isNameLetter c = true → c.toLower ≠ Text.foldKey '>') (by decide)
    (Markup.ascii_of_isNameLetter h) h

theorem not_paired (h : ∀ p ∈ parts, p.Tidy) (hs : s <:+ parts.flatMap Part.write) :
    paired? s = none := by
  unfold paired?
  split
  · rfl
  · rename_i spot hspot
    obtain ⟨t, rest, hp, hvoid, rfl, -⟩ := of_startTag? h hs hspot
    have ht : t.Tidy := h _ (hp.subset List.mem_cons_self)
    have hrest : ∀ p ∈ rest, p.Tidy := fun p hm =>
      h p (hp.subset (List.mem_cons_of_mem _ hm))
    split
    · rfl
    · rename_i behind hb
      unfold afterEndName? at hb
      split at hb
      · rename_i after ha
        have hsuffix : '<' :: '/' :: after <:+ rest.flatMap Part.write :=
          ha ▸ List.dropWhile_suffix isBlank
        obtain ⟨q, more, hq, htext, he⟩ := Markup.exists_part_of_suffix hrest hsuffix
        obtain ⟨u, hu, hunvoid, rfl⟩ :=
          endTag_of_slash (hrest q (hq.subset List.mem_cons_self)) htext he
        have hname (v : Tag) (hv : v.Tidy) : ∀ c ∈ v.name.toList, isNameLetter c = true :=
          Markup.isNameLetter_of_mem hv.legible
        obtain ⟨first, last, hsplit, rfl, hlower⟩ := Text.of_afterFolded?_name
          (fun c hc => ⟨Markup.ascii_of_isNameLetter (hname t ht c hc),
            toLower_ne_close (hname t ht c hc)⟩)
          (fun c hc => Markup.ascii_of_isNameLetter (hname u hu c hc)) hb
        split
        · rename_i tail hclose
          -- the end tag would be that of the void element itself
          obtain rfl : last = [] := by
            refine Text.eq_nil_of_skipBlanks (fun c hc => ?_) hclose
            obtain ⟨-, -, -, hblank, -, hne, -⟩ := Markup.of_isNameLetter
              (hname u hu c (hsplit ▸ List.mem_append_right _ hc))
            exact ⟨hblank, hne⟩
          have hsame : lowerString u.name = lowerString t.name := by
            rw [← String.toList_inj, Markup.toList_lowerString hu.legible,
              Markup.toList_lowerString ht.legible, hsplit, List.append_nil]
            exact hlower
          rw [hu.void, hsame, ← ht.void, hvoid] at hunvoid
          cases hunvoid
        · rfl
      · cases hb

-- ---------------------------------------------------------------------------
-- Tags with a slash

theorem getLast?_attributes (attributes : List (String × Markup.AttributeValue))
    (h : ∀ a ∈ attributes, Markup.isOrdinaryValue a.2 = true) :
    (attributes.flatMap bareStyle.attributeText).getLast? ≠ some '/' := by
  induction attributes with
  | nil => exact nofun
  | cons a more ih =>
    obtain ⟨ha, hmore⟩ := List.forall_mem_cons.mp h
    obtain ⟨name, value⟩ := a
    cases value with
    | text value =>
      have hquote : '"' ∉ value.toList := Markup.not_mem_of_lacks ha (by decide)
      have htext := Markup.OpenTag.attributeText_bare name value hquote []
      rw [List.append_nil] at htext
      rw [List.flatMap_cons, List.getLast?_append, htext]
      intro hl
      rcases Option.or_eq_some_iff.mp hl with hl | ⟨-, hl⟩
      · exact ih hmore hl
      · simp [List.getLast?_cons, List.getLast?_append] at hl
    | _ => cases ha

theorem startTag_of_isAlpha {p : Part} (h : p.Tidy) (ht : p.isText = false) {c : Char}
    (hc : c.isAlpha = true) {s rest : List Char} (hs : '<' :: c :: s = p.write ++ rest) :
    ∃ t, p = .startTag t ∧ c :: s = t.name.toList ++ (Part.behindName t ++ rest) := by
  cases p with
  | leaf kind content =>
    cases kind with
    | text => cases ht
    | comment =>
      obtain rfl := (List.cons.inj (List.cons.inj hs).2).1
      cases hc
    | leadingDocType =>
      obtain rfl := (List.cons.inj (List.cons.inj hs).2).1
      cases hc
    | _ => exact absurd h id
  | startTag t =>
    refine ⟨t, rfl, ?_⟩
    rw [Part.write_startTag, List.cons_append, List.append_assoc] at hs
    exact (List.cons.inj hs).2
  | endTag t =>
    obtain rfl := (List.cons.inj (List.cons.inj hs).2).1
    cases hc

theorem span_name {t : Tag} (h : t.Tidy) {letters : List Char}
    (hl : ∀ c ∈ letters, isNameLetter c = true) (rest : List Char) :
    (letters ++ (Part.behindName t ++ rest)).takeWhile isNameChar = letters ∧
      (letters ++ (Part.behindName t ++ rest)).dropWhile isNameChar =
        Part.behindName t ++ rest := by
  have hletters : ∀ c ∈ letters, isNameChar c = true := hl
  have hstop : ∀ c ∈ [' ', '/', '>'], isNameChar c = false := by decide
  obtain ⟨c, tail, hbehind, hc⟩ := h.exists_behindName
  rw [List.takeWhile_append_of_pos hletters, List.dropWhile_append_of_pos hletters, hbehind]
  simp [hstop c hc]

theorem of_closed? (h : ∀ p ∈ parts, p.Tidy) (hs : s <:+ parts.flatMap Part.write)
    (hspot : closed? s = some spot) :
    names.contains (lowerString (String.ofList spot.name)) = true ∧
      spot.whole ++ spot.rest = s := by
  unfold closed? at hspot
  split at hspot
  · rename_i c s
    split at hspot
    · rename_i hc
      obtain ⟨p, more, hp, htext, he⟩ := Markup.exists_part_of_suffix h hs
      have hp' : p.Tidy := h p (hp.subset List.mem_cons_self)
      obtain ⟨t, rfl, hcs⟩ := startTag_of_isAlpha hp' htext hc he
      have ht : t.Tidy := hp'
      obtain ⟨d, cs, hname, -, hletters⟩ := Markup.exists_of_isLegible ht.legible
      rw [hname, List.cons_append] at hcs
      obtain ⟨rfl, rfl⟩ := List.cons.inj hcs
      obtain ⟨htake, hdrop⟩ := span_name ht (List.forall_mem_cons.mp hletters).2
        (more.flatMap Part.write)
      rw [htake, hdrop] at hspot
      cases hv : t.void with
      | true =>
        rw [behindName_of_void hv, List.append_assoc, List.singleton_append,
          Text.cutAtChar_append (not_mem_innerOf ht)] at hspot
        simp only at hspot
        split at hspot
        · cases hspot
          refine ⟨?_, ?_⟩
          · rw [← hname, String.ofList_toList, ← ht.void, hv]
          · simp [Spot.whole, behindName_of_void hv]
        · cases hspot
      | false =>
        have hunvoid : Part.behindName t = bareStyle.attributes t.attributes ++ ['>'] := by
          simp [Part.behindName, Part.ending, hv]
        rw [hunvoid, List.append_assoc, List.singleton_append,
          Text.cutAtChar_append (ht.not_mem_attributes (by decide))] at hspot
        simp only at hspot
        split at hspot
        · rename_i hslash
          exact absurd hslash.1 (getLast?_attributes _ fun a ha => (ht.attributes a ha).2)
        · cases hspot
    · cases hspot
  · cases hspot

-- ---------------------------------------------------------------------------
-- Nothing is written anew

theorem closeLone_tidy (h : ∀ p ∈ parts, p.Tidy) :
    closeLone (parts.flatMap Part.write) = parts.flatMap Part.write := by
  refine replaceSpots_eq_self fun s spot hs hspot => ?_
  obtain ⟨t, rest, hp, -, rfl, rfl⟩ := of_startTag? h hs (startTag_of_lone? hspot)
  have hslash : (trimEnd (innerOf t)).getLast? = some '/' := by
    rw [innerOf, trimEnd_append_blanks rfl (by simp), List.getLast?_concat]
  rw [if_pos hslash]
  simp [Spot.whole]

theorem joinPaired_tidy (h : ∀ p ∈ parts, p.Tidy) :
    joinPaired (parts.flatMap Part.write) = parts.flatMap Part.write := by
  refine replaceSpots_eq_self fun s spot hs hspot => ?_
  rw [not_paired h hs] at hspot
  cases hspot

theorem openClosed_tidy (h : ∀ p ∈ parts, p.Tidy) :
    openClosed (parts.flatMap Part.write) = parts.flatMap Part.write := by
  refine replaceSpots_eq_self fun s spot hs hspot => ?_
  obtain ⟨hvoid, hback⟩ := of_closed? h hs hspot
  rw [if_pos hvoid, hback]

variable {text : String}

theorem normalize_tidy (h : ∀ p ∈ parts, p.Tidy)
    (written : text.toList = parts.flatMap Part.write) : normalize text = text := by
  rw [normalize, written, closeLone_tidy h, ← written, String.ofList_toList]

theorem canonicalize_tidy (h : ∀ p ∈ parts, p.Tidy)
    (written : text.toList = parts.flatMap Part.write) : canonicalize text = text := by
  rw [canonicalize, written, joinPaired_tidy h, closeLone_tidy h, openClosed_tidy h,
    ← written, String.ofList_toList]

end Mailgrid.VoidElement
