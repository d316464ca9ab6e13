import Mailgrid.Proofs.Markup.Spelling
import Mailgrid.Proofs.Unfolding.Lower

/-!
# Names with their first spellings

All elements of one name get one spelling, the first in mixed case that was found
for it. Where its spellings do not differ, that is the one that each of them was
written with. Whatever is found as a spelling stands in the text.
-/

namespace Mailgrid.Markup

open Mailgrid.Text (isBlank lowerString skipBlanks)

-- ---------------------------------------------------------------------------
-- First spellings

namespace Spelling

variable {spellings : List (List Char)} {name : String} {s : List Char}

/-- The name that is spelled so. -/
def nameOf (s : List Char) : String :=
  String.ofList (Text.lower s)

/-- What a spelling comes to on its own: itself if it is in mixed case, and else its lower case. -/
def own (s : List Char) : String :=
  if Text.isMixedCase s then String.ofList s else nameOf s

/-- The first of some spellings of a name that is in mixed case; without one, the name. -/
def first (spellings : List (List Char)) (name : String) : String :=
  ((spellings.find? (isSpellingOf name)).map String.ofList).getD name

theorem isSpellingOf_iff :
    isSpellingOf name s = true ↔ Text.isMixedCase s = true ∧ nameOf s = name := by
  rw [isSpellingOf, Bool.and_eq_true, beq_iff_eq]
  rfl

theorem respell_first (spellings : List (List Char)) (name : String) :
    respell (spellings.foldl note []) name = first spellings name :=
  respell_foldl spellings name

theorem lowerString_first (h : lowerString name = name) :
    lowerString (first spellings name) = name := by
  rw [← respell_first]
  exact lowerString_respell spellings h

/-- A name that is spelled in one way has its own spelling. -/
theorem first_of_alike (hs : s ∈ spellings)
    (alike : ∀ other ∈ spellings, nameOf other = nameOf s → own other = own s) :
    first spellings (nameOf s) = own s := by
  unfold first
  cases hf : spellings.find? (isSpellingOf (nameOf s)) with
  | some other =>
    obtain ⟨hmixed, hname⟩ := isSpellingOf_iff.mp (List.find?_some hf)
    rw [← alike other (List.mem_of_find?_eq_some hf) hname, own, if_pos hmixed]
    rfl
  | none =>
    have hnone := List.find?_eq_none.mp hf s hs
    rw [isSpellingOf_iff, not_and] at hnone
    rw [own, if_neg fun hmixed => hnone hmixed rfl]
    rfl

theorem first_of_none (h : ∀ s ∈ spellings, nameOf s = name → Text.isMixedCase s = false) :
    first spellings name = name := by
  have hf : spellings.find? (isSpellingOf name) = none := by
    refine List.find?_eq_none.mpr fun s hs hspelling => ?_
    obtain ⟨hmixed, hname⟩ := isSpellingOf_iff.mp hspelling
    rw [h s hs hname] at hmixed
    cases hmixed
  rw [first, hf]
  rfl

end Spelling

-- ---------------------------------------------------------------------------
-- Tags

/-- A tag with the first spellings of its names. -/
def Tag.spelled (tags attributes : List (List Char)) (t : Tag) : Tag :=
  { t with
    name := Spelling.first tags t.name
    attributes := t.attributes.map fun (name, value) => (Spelling.first attributes name, value) }

/-- No two attributes come to one name when they get their spellings back. -/
theorem Tag.IsLower.restore_spelled {t : Tag} (h : t.IsLower) (tags attributes : List (List Char)) :
    Spelling.restore ⟨tags.foldl Spelling.note [], attributes.foldl Spelling.note []⟩ t =
      t.spelled tags attributes := by
  have hlower : t.attributes.map (fun a => lowerString (Spelling.first attributes a.1)) =
      t.attributes.map (·.1) :=
    List.map_congr_left fun a ha => Spelling.lowerString_first (h.attributes a ha)
  have hnodup : ((t.attributes.map fun a => (Spelling.first attributes a.1, a.2)).map
      (·.1)).Nodup := by
    refine List.Nodup.of_map lowerString ?_
    rw [List.map_map, List.map_map]
    exact hlower ▸ h.nodup
  simp only [Spelling.restore, Spelling.respell_first, Tag.spelled, Table.ofList_of_nodup hnodup]

theorem Forest.mapTags_congr {P : Tag → Prop} {f : Forest α} (h : f.Tags P)
    {change other : Tag → Tag} (same : ∀ t, P t → change t = other t) :
    f.mapTags change = f.mapTags other := by
  induction f with
  | nil => rfl
  | leaf m kind content next ih => rw [mapTags, mapTags, ih h]
  | element m tag children next ihc ih =>
    obtain ⟨htag, hchildren, hnext⟩ := every_element.mp h
    rw [mapTags, mapTags, same tag htag, ihc hchildren, ih hnext]

-- ---------------------------------------------------------------------------
-- What is found stands in the text

namespace Spelling

variable {s u name held rest : List Char}

theorem of_unquotedRest? (h : unquotedRest? s = some (held, rest)) :
    rest <:+ s ∧ held.takeWhile isNameChar = s.takeWhile isNameChar ∧
      ∀ v, v <:+ held → ∃ w, w <:+ s ∧ w.takeWhile isNameChar = v.takeWhile isNameChar := by
  fun_induction unquotedRest? s generalizing held with
  | case1 => cases h
  | case2 s =>
    cases h
    refine ⟨List.suffix_cons _ _, rfl, fun v hv => ⟨[], List.nil_suffix, ?_⟩⟩
    rw [List.suffix_nil.mp hv]
  | case3 c s _ hquote inner after hcut ih =>
    obtain ⟨⟨held, behind⟩, hr, he⟩ := Option.map_eq_some_iff.mp h
    cases he
    obtain ⟨hrest, -, hnames⟩ := ih hr
    have hafter : after <:+ c :: s := by
      rw [Text.append_of_cutAtChar hcut]
      exact ⟨c :: inner ++ [c], by simp⟩
    refine ⟨hrest.trans hafter, ?_, fun v hv => ?_⟩
    · have hspace : isNameChar ' ' = false := rfl
      have hc : isNameChar c = false := by rcases hquote with rfl | rfl <;> rfl
      simp [hspace, hc]
    · obtain rfl | hv := List.suffix_cons_iff.mp hv
      · exact ⟨[], List.nil_suffix, rfl⟩
      · obtain ⟨w, hw, hname⟩ := hnames v hv
        exact ⟨w, hw.trans hafter, hname⟩
  | case4 => cases h
  | case5 c s _ _ ih =>
    obtain ⟨⟨held, behind⟩, hr, he⟩ := Option.map_eq_some_iff.mp h
    cases he
    obtain ⟨hrest, hfirst, hnames⟩ := ih hr
    have hsame : (c :: held).takeWhile isNameChar = (c :: s).takeWhile isNameChar := by
      rw [List.takeWhile_cons, List.takeWhile_cons, hfirst]
    refine ⟨hrest.trans (List.suffix_cons c s), hsame, fun v hv => ?_⟩
    obtain rfl | hv := List.suffix_cons_iff.mp hv
    · exact ⟨c :: s, List.suffix_rfl, hsame.symm⟩
    · obtain ⟨w, hw, hname⟩ := hnames v hv
      exact ⟨w, hw.trans (List.suffix_cons c s), hname⟩

theorem prefix_of_name? (h : name? s = some name) : name <+: s := by
  cases s with
  | nil => cases h
  | cons c s =>
    rw [name?] at h
    split at h
    · cases h
      exact (List.prefix_cons_inj c).mpr (List.takeWhile_prefix _)
    · cases h

theorem mem_everywhere {β : Type} {look : List Char → Option β} {x : β}
    (h : x ∈ everywhere look s) : ∃ u, u <:+ s ∧ look u = some x := by
  induction s with
  | nil => cases h
  | cons c s ih =>
    rw [everywhere, List.mem_append, Option.mem_toList] at h
    obtain h | h := h
    · exact ⟨c :: s, List.suffix_rfl, h⟩
    · obtain ⟨u, hu, hx⟩ := ih h
      exact ⟨u, hu.trans (List.suffix_cons c s), hx⟩

theorem isNameChar_of_start {c : Char} (h : (c.isAlpha || c == '_' || c == ':') = true) :
    isNameChar c = true := by
  rw [Bool.or_eq_true, Bool.or_eq_true, beq_iff_eq, beq_iff_eq] at h
  obtain (halpha | rfl) | rfl := h
  · exact isNameChar_of_letter (by simp [isNameLetter, Char.isAlphanum, halpha])
  · rfl
  · rfl

theorem of_attribute? (h : attribute? s = some name) :
    ∃ u, u <:+ s ∧ name = u.takeWhile isNameChar := by
  unfold attribute? at h
  split at h
  · rename_i b c s
    split at h
    · rename_i hstart
      cases h
      refine ⟨c :: s, List.suffix_cons b _, ?_⟩
      rw [List.takeWhile_cons_of_pos (isNameChar_of_start ((Bool.and_eq_true _ _).mp hstart).2)]
    · cases h
  · cases h

theorem infix_of_startTag? (h : startTag? s = some (name, held, rest)) :
    rest <:+ s ∧ name <:+: s ∧ ∀ x ∈ everywhere attribute? held, x <:+: s := by
  unfold startTag? at h
  split at h
  · rename_i s
    split at h
    · rename_i found hname
      obtain ⟨⟨held, behind⟩, hr, he⟩ := Option.map_eq_some_iff.mp h
      cases he
      have hblanks : skipBlanks s <:+ '<' :: s :=
        (List.dropWhile_suffix _).trans (List.suffix_cons '<' s)
      have hdrop : (skipBlanks s).drop name.length <:+ '<' :: s :=
        (List.drop_suffix _ _).trans hblanks
      obtain ⟨hrest, -, hnames⟩ := of_unquotedRest? hr
      refine ⟨hrest.trans hdrop, (prefix_of_name? hname).isInfix.trans hblanks.isInfix, ?_⟩
      intro x hx
      obtain ⟨v, hv, hattribute⟩ := mem_everywhere hx
      obtain ⟨u, hu, rfl⟩ := of_attribute? hattribute
      obtain ⟨w, hw, hsame⟩ := hnames u (hu.trans hv)
      rw [← hsame]
      exact (List.takeWhile_prefix _).isInfix.trans (hw.trans hdrop).isInfix
    · cases h
  · cases h

theorem infix_of_endTag? (h : endTag? s = some name) : name <:+: s := by
  unfold endTag? at h
  split at h
  · rename_i s
    split at h
    · rename_i after hslash
      have hafter : skipBlanks after <:+ '<' :: s := by
        refine (List.dropWhile_suffix _).trans ((List.suffix_cons '/' after).trans ?_)
        rw [← hslash]
        exact (List.dropWhile_suffix _).trans (List.suffix_cons '<' s)
      exact (prefix_of_name? h).isInfix.trans hafter.isInfix
    · cases h
  · cases h

theorem mem_startTags {tag : List Char × List Char} (h : tag ∈ startTags s) :
    ∃ u rest, u <:+ s ∧ startTag? u = some (tag.1, tag.2, rest) := by
  induction hn : s.length using Nat.strongRecOn generalizing s with
  | ind n ih =>
    subst hn
    cases s with
    | nil =>
      rw [startTags_nil] at h
      cases h
    | cons c s =>
      cases hfound : startTag? (c :: s) with
      | none =>
        rw [startTags_of_none hfound] at h
        obtain ⟨u, rest, hu, htag⟩ := ih s.length (Nat.lt_succ_self _) h rfl
        exact ⟨u, rest, hu.trans (List.suffix_cons c s), htag⟩
      | some first =>
        obtain ⟨name, held, behind⟩ := first
        rw [startTags_of_some hfound] at h
        obtain rfl | h := List.mem_cons.mp h
        · exact ⟨c :: s, behind, List.suffix_rfl, hfound⟩
        · obtain ⟨u, rest, hu, htag⟩ := ih behind.length (length_of_startTag? hfound) h rfl
          exact ⟨u, rest, hu.trans (infix_of_startTag? hfound).1, htag⟩

/-- The names of elements that are found in a text, those of start tags first. -/
def foundTags (s : List Char) : List (List Char) :=
  (startTags s).map (·.1) ++ everywhere endTag? s

/-- The names of attributes that are found in a text. -/
def foundAttributes (s : List Char) : List (List Char) :=
  (startTags s).flatMap fun tag => everywhere attribute? tag.2

theorem infix_of_found {x : List Char} (h : x ∈ foundTags s ++ foundAttributes s) : x <:+: s := by
  rw [foundTags, foundAttributes, List.mem_append, List.mem_append, List.mem_map,
    List.mem_flatMap] at h
  obtain (⟨tag, htag, rfl⟩ | hend) | ⟨tag, htag, hx⟩ := h
  · obtain ⟨u, rest, hu, hfound⟩ := mem_startTags htag
    exact (infix_of_startTag? hfound).2.1.trans hu.isInfix
  · obtain ⟨u, hu, hfound⟩ := mem_everywhere hend
    exact (infix_of_endTag? hfound).trans hu.isInfix
  · obtain ⟨u, rest, hu, hfound⟩ := mem_startTags htag
    exact ((infix_of_startTag? hfound).2.2 x hx).trans hu.isInfix

/-- The spellings of a text are those of the names that are found in it. -/
theorem ofText_found (text : String) : ofText text =
    ⟨(foundTags text.toList).foldl note [], (foundAttributes text.toList).foldl note []⟩ :=
  rfl

end Spelling

end Mailgrid.Markup
