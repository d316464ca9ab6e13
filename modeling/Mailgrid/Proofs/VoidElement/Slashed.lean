import Mailgrid.Proofs.Markup.Spelling
import Mailgrid.Proofs.VoidElement.Passages

/-!
# Slashes before the ends of tags

All that is done to the void start tags of a text is to put a space and a slash
before some of the `>` in it. Wherever these stand, in tags, in values or in what
is no tag at all, the same names are collected from the text.
-/

namespace Mailgrid

open Text (isBlank skipBlanks cutAtChar)

namespace VoidElement

/-- The second text is the first with a space and a slash before some `>`. -/
inductive Slashed : List Char → List Char → Prop where
  | nil : Slashed [] []
  | cons (c : Char) {s t : List Char} : Slashed s t → Slashed (c :: s) (c :: t)
  | slash {s t : List Char} : Slashed s t → Slashed ('>' :: s) (' ' :: '/' :: '>' :: t)

namespace Slashed

variable {s t u v : List Char}

theorem refl : ∀ s, Slashed s s
  | [] => .nil
  | c :: s => .cons c (refl s)

theorem append (h : Slashed s t) (h' : Slashed u v) : Slashed (s ++ u) (t ++ v) := by
  induction h with
  | nil => exact h'
  | cons c _ ih => exact .cons c ih
  | slash _ ih => exact .slash ih

end Slashed

theorem slashed_writeLone (spot : Spot) : Slashed spot.whole (writeLone spot) := by
  rw [writeLone]
  split
  · exact .refl _
  · have hinner := Slashed.append (.refl ('<' :: spot.name ++ spot.inner)) (.slash .nil)
    simpa [Spot.whole, withSlash] using hinner

/-- Putting slashes into the void start tags of a text does nothing else. -/
theorem slashed_closeLone (s : List Char) : Slashed s (closeLone s) := by
  induction hn : s.length using Nat.strongRecOn generalizing s with
  | ind n ih =>
    subst hn
    cases s with
    | nil =>
      have hnil : closeLone [] = [] := Text.substitute_nil _
      rw [hnil]
      exact .nil
    | cons c s =>
      cases hspot : lone? (c :: s) with
      | none =>
        have hkept : closeLone (c :: s) = c :: closeLone s := replaceSpots_of_none hspot
        rw [hkept]
        exact .cons c (ih s.length (Nat.lt_succ_self _) s rfl)
      | some spot =>
        have hrest := ih spot.rest.length (rest_of_lone? hspot) spot.rest rfl
        have hwritten : closeLone (c :: s) = writeLone spot ++ closeLone spot.rest :=
          replaceSpots_of_some hspot
        rw [hwritten, ← whole_append (startTag_of_lone? hspot)]
        exact (slashed_writeLone spot).append hrest

theorem slashed_normalize (text : String) : Slashed text.toList (normalize text).toList := by
  rw [normalize, String.toList_ofList]
  exact slashed_closeLone _

end VoidElement

-- ---------------------------------------------------------------------------
-- Names

namespace Markup.Spelling

open VoidElement (Slashed)

variable {s t : List Char}

theorem takeWhile_slashed (h : Slashed s t) :
    t.takeWhile isNameChar = s.takeWhile isNameChar ∧
      Slashed (s.dropWhile isNameChar) (t.dropWhile isNameChar) := by
  induction h with
  | nil => exact ⟨rfl, .nil⟩
  | cons c h ih =>
    simp only [List.takeWhile_cons, List.dropWhile_cons]
    split
    · exact ⟨congrArg _ ih.1, ih.2⟩
    · exact ⟨rfl, .cons c h⟩
  | slash h => exact ⟨rfl, .slash h⟩

theorem skipBlanks_slashed (h : Slashed s t) :
    Slashed (skipBlanks s) (skipBlanks t) ∨
      ∃ u v, skipBlanks s = '>' :: u ∧ skipBlanks t = '/' :: '>' :: v := by
  induction h with
  | nil => exact .inl .nil
  | cons c h ih =>
    simp only [skipBlanks, List.dropWhile_cons] at ih ⊢
    split
    · exact ih
    · exact .inl (.cons c h)
  | slash h => exact .inr ⟨_, _, rfl, rfl⟩

theorem name?_slashed (h : Slashed s t) : name? t = name? s := by
  cases h with
  | nil => rfl
  | cons c h => simp only [name?, (takeWhile_slashed h).1]
  | slash h => rfl

theorem name?_skipBlanks_slashed (h : Slashed s t) :
    name? (skipBlanks t) = name? (skipBlanks s) := by
  obtain h | ⟨u, v, hu, hv⟩ := skipBlanks_slashed h
  · exact name?_slashed h
  · rw [hu, hv]
    rfl

theorem endTag?_slashed (c : Char) (h : Slashed s t) : endTag? (c :: t) = endTag? (c :: s) := by
  by_cases hc : c = '<'
  · subst hc
    simp only [endTag?]
    obtain h | ⟨u, v, hu, hv⟩ := skipBlanks_slashed h
    · generalize skipBlanks s = s' at h
      generalize skipBlanks t = t' at h
      cases h with
      | nil => rfl
      | cons c h =>
        by_cases hslash : c = '/'
        · subst hslash
          exact name?_skipBlanks_slashed h
        · split
          · rename_i he
            exact absurd (List.cons.inj he).1 hslash
          · split
            · rename_i he
              exact absurd (List.cons.inj he).1 hslash
            · rfl
      | slash h => rfl
    · rw [hu, hv]
      rfl
  · rw [endTag?_of_ne hc, endTag?_of_ne hc]

theorem endTags_slashed (h : Slashed s t) : everywhere endTag? t = everywhere endTag? s := by
  induction h with
  | nil => rfl
  | cons c h ih => rw [everywhere, everywhere, endTag?_slashed c h, ih]
  | slash h ih =>
    simp only [everywhere, ih]
    rfl

theorem cutAtChar_slashed {quote : Char} (hquote : quote ∉ [' ', '/', '>']) (h : Slashed s t) :
    (cutAtChar quote s = none ∧ cutAtChar quote t = none) ∨
      ∃ inside after inside' after', cutAtChar quote s = some (inside, after) ∧
        cutAtChar quote t = some (inside', after') ∧ Slashed after after' := by
  simp only [List.mem_cons, List.not_mem_nil, or_false, not_or] at hquote
  induction h with
  | nil => exact .inl ⟨rfl, rfl⟩
  | @cons c s t h ih =>
    by_cases hc : c = quote
    · simp only [cutAtChar, hc, if_true]
      exact .inr ⟨_, _, _, _, rfl, rfl, h⟩
    · obtain ⟨hn, hn'⟩ | ⟨inside, after, inside', after', hs, ht, hafter⟩ := ih
      · simp [cutAtChar, hc, hn, hn']
      · exact .inr ⟨c :: inside, after, c :: inside', after', by simp [cutAtChar, hc, hs],
        by simp [cutAtChar, hc, ht], hafter⟩
  | @slash s t h ih =>
    obtain ⟨hspace, hslash, hclose⟩ := hquote
    obtain ⟨hn, hn'⟩ | ⟨inside, after, inside', after', hs, ht, hafter⟩ := ih
    · simp [cutAtChar, Ne.symm hspace, Ne.symm hslash, Ne.symm hclose, hn, hn']
    · exact .inr ⟨'>' :: inside, after, ' ' :: '/' :: '>' :: inside', after',
        by simp [cutAtChar, Ne.symm hclose, hs],
        by simp [cutAtChar, Ne.symm hspace, Ne.symm hslash, Ne.symm hclose, ht], hafter⟩

/-- Both texts go on to the end of a tag, the same but for a slash before it, or both do not. -/
def SameTag (s t : List Char) : Prop :=
  (unquotedRest? s = none ∧ unquotedRest? t = none) ∨
    ∃ held held' rest rest', unquotedRest? s = some (held, rest) ∧
      unquotedRest? t = some (held', rest') ∧ (held' = held ∨ held' = held ++ [' ', '/']) ∧
        Slashed rest rest'

theorem SameTag.behind {s t u v : List Char} (h : SameTag s t) (c : Char)
    (hu : unquotedRest? u = (unquotedRest? s).map fun (held, rest) => (c :: held, rest))
    (hv : unquotedRest? v = (unquotedRest? t).map fun (held, rest) => (c :: held, rest)) :
    SameTag u v := by
  rw [SameTag, hu, hv]
  obtain ⟨hs, ht⟩ | ⟨held, held', rest, rest', hs, ht, hheld, hrest⟩ := h
  · simp [hs, ht]
  · refine .inr ⟨c :: held, c :: held', rest, rest', by simp [hs], by simp [ht], ?_, hrest⟩
    simpa using hheld

theorem sameTag_of_slashed (h : Slashed s t) : SameTag s t := by
  induction hn : s.length using Nat.strongRecOn generalizing s t with
  | ind n ih =>
    subst hn
    cases h with
    | nil => exact .inl ⟨by rw [unquotedRest?], by rw [unquotedRest?]⟩
    | @slash s t h =>
      have hclose (u : List Char) : unquotedRest? ('>' :: u) = some ([], u) := by
        rw [unquotedRest?, if_pos rfl]
      have hslash := unquotedRest?_append
        (by decide : ∀ c ∈ [' ', '/'], c ∉ ['>', '"', '\'']) ('>' :: t)
      rw [hclose] at hslash
      exact .inr ⟨[], [' ', '/'], s, t, hclose s, hslash, .inr rfl, h⟩
    | @cons c s t h =>
      by_cases hclose : c = '>'
      · subst hclose
        exact .inr ⟨[], [], s, t, by rw [unquotedRest?, if_pos rfl],
          by rw [unquotedRest?, if_pos rfl], .inl rfl, h⟩
      · by_cases hquote : c = '"' ∨ c = '\''
        · have hmem : c ∉ [' ', '/', '>'] := by rcases hquote with rfl | rfl <;> decide
          obtain ⟨hs, ht⟩ | ⟨inside, after, inside', after', hs, ht, hafter⟩ :=
            cutAtChar_slashed hmem h
          · exact .inl ⟨unquotedRest?_unclosed hquote hs, unquotedRest?_unclosed hquote ht⟩
          · have hlength : after.length < (c :: s).length := by
              rw [Text.append_of_cutAtChar hs]
              simp
              omega
            exact (ih after.length hlength hafter rfl).behind ' ' (unquotedRest?_quoted hquote hs)
              (unquotedRest?_quoted hquote ht)
        · refine (ih s.length (Nat.lt_succ_self _) h rfl).behind c ?_ ?_
          · rw [unquotedRest?, if_neg hclose, if_neg hquote]
          · rw [unquotedRest?, if_neg hclose, if_neg hquote]

theorem attributes_slash (held : List Char) :
    everywhere attribute? (held ++ [' ', '/']) = everywhere attribute? held := by
  induction held with
  | nil => rfl
  | cons b held ih =>
    have hsame : attribute? (b :: (held ++ [' ', '/'])) = attribute? (b :: held) := by
      cases held with
      | nil => simp [attribute?]
      | cons c held =>
        have hletters : (held ++ [' ', '/']).takeWhile isNameChar = held.takeWhile isNameChar := by
          rw [Text.takeWhile_append_cons (by decide)]
        simp only [List.cons_append, attribute?, hletters]
    rw [List.cons_append, everywhere, hsame, ih, everywhere]

/-- What a tag gives to the spellings of a document. -/
def found (tag : List Char × List Char) : List Char × List (List Char) :=
  (tag.1, everywhere attribute? tag.2)

theorem drop_name {name : List Char} (h : name? s = some name) :
    ∃ c u, s = c :: u ∧ c.isAlpha = true ∧ s.drop name.length = u.dropWhile isNameChar := by
  cases s with
  | nil => cases h
  | cons c u =>
    rw [name?] at h
    split at h
    · rename_i hc
      cases h
      refine ⟨c, u, rfl, hc, ?_⟩
      rw [List.length_cons, List.drop_succ_cons]
      have hwhole := congrArg (List.drop (u.takeWhile isNameChar).length)
        (List.takeWhile_append_dropWhile (p := isNameChar) (l := u))
      rw [List.drop_left] at hwhole
      exact hwhole.symm
    · cases h

theorem startTag?_slashed (c : Char) (h : Slashed s t) :
    (startTag? (c :: s) = none ∧ startTag? (c :: t) = none) ∨
      ∃ name held held' rest rest', startTag? (c :: s) = some (name, held, rest) ∧
        startTag? (c :: t) = some (name, held', rest') ∧
          found (name, held') = found (name, held) ∧ Slashed rest rest' := by
  by_cases hc : c = '<'
  · subst hc
    have hname := name?_skipBlanks_slashed h
    simp only [startTag?, hname]
    cases hs : name? (skipBlanks s) with
    | none => exact .inl ⟨rfl, rfl⟩
    | some name =>
      obtain ⟨d, u, hu, hd, hdrop⟩ := drop_name hs
      obtain ⟨e, v, hv, -, hdrop'⟩ := drop_name (hname.trans hs)
      have hbehind : Slashed (u.dropWhile isNameChar) (v.dropWhile isNameChar) := by
        obtain h | ⟨_, _, hclose, -⟩ := skipBlanks_slashed h
        · rw [hu, hv] at h
          cases h with
          | cons _ h => exact (takeWhile_slashed h).2
          | slash _ => cases hd
        · cases hu.symm.trans hclose
          cases hd
      simp only [hdrop, hdrop']
      obtain ⟨hn, hn'⟩ | ⟨held, held', rest, rest', hr, hr', hheld, hrest⟩ :=
        sameTag_of_slashed hbehind
      · simp [hn, hn']
      · refine .inr ⟨name, held, held', rest, rest', by simp [hr], by simp [hr'], ?_, hrest⟩
        obtain rfl | rfl := hheld
        · rfl
        · rw [found, found, attributes_slash]
  · exact .inl ⟨startTag?_of_ne hc, startTag?_of_ne hc⟩

theorem startTags_slashed (h : Slashed s t) :
    (startTags t).map found = (startTags s).map found := by
  induction hn : s.length using Nat.strongRecOn generalizing s t with
  | ind n ih =>
    subst hn
    cases h with
    | nil => rfl
    | @slash s t h =>
      rw [startTags_of_none (startTag?_of_ne (by decide)),
        startTags_of_none (startTag?_of_ne (by decide)),
        startTags_of_none (startTag?_of_ne (by decide)),
        startTags_of_none (startTag?_of_ne (by decide))]
      exact ih s.length (Nat.lt_succ_self _) h rfl
    | @cons c s t h =>
      obtain ⟨hs, ht⟩ | ⟨name, held, held', rest, rest', hs, ht, hfound, hrest⟩ :=
        startTag?_slashed c h
      · rw [startTags_of_none hs, startTags_of_none ht]
        exact ih s.length (Nat.lt_succ_self _) h rfl
      · rw [startTags_of_some hs, startTags_of_some ht, List.map_cons, List.map_cons, hfound,
          ih rest.length (length_of_startTag? hs) hrest rfl]

/-- The same names are collected from a text, whatever slashes are put into it. -/
theorem ofText_slashed {text text' : String} (h : Slashed text.toList text'.toList) :
    ofText text' = ofText text := by
  have hnames (s : List Char) : (startTags s).map (·.1) = ((startTags s).map found).map (·.1) := by
    rw [List.map_map]
    rfl
  have hheld (s : List Char) : ((startTags s).flatMap fun (_, held) => everywhere attribute? held) =
      ((startTags s).map found).flatMap (·.2) := by
    rw [List.flatMap_map]
    rfl
  simp only [ofText, hnames, hheld, startTags_slashed h, endTags_slashed h]

theorem ofText_normalize (text : String) : ofText (VoidElement.normalize text) = ofText text :=
  ofText_slashed (VoidElement.slashed_normalize text)

end Markup.Spelling

end Mailgrid
