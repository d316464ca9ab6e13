import Mailgrid.Proofs.VoidElement.Names
import Mailgrid.Proofs.VoidElement.Slashed

/-!
# Slashes that are put once

A void start tag is seen in a text with more slashes just where it is seen
without them, and so is what follows it. A slash that was put there belongs to
the tag, so it is not put there again.
-/

namespace Mailgrid

open Text (isBlank skipBlanks cutAtChar trimEnd foldKey isLike spelling? afterFolded?)

-- ---------------------------------------------------------------------------
-- Words in a text with more slashes

namespace VoidElement

variable {s t : List Char}

theorem spelling?_slashed {word : List Char}
    (hw : ∀ w ∈ word, ∀ d, isForeign d = true → isLike w d = false) (h : Slashed s t) :
    (spelling? word s = none ∧ spelling? word t = none) ∨
      ∃ name rest rest', spelling? word s = some (name, rest) ∧
        spelling? word t = some (name, rest') ∧ Slashed rest rest' := by
  induction word generalizing s t with
  | nil => exact .inr ⟨[], s, t, rfl, rfl, h⟩
  | cons w word ih =>
    obtain ⟨hne, hword⟩ := List.forall_mem_cons.mp hw
    cases h with
    | nil => exact .inl ⟨rfl, rfl⟩
    | slash h =>
      have hspace : isLike w ' ' = false := hne ' ' rfl
      have hclose : isLike w '>' = false := hne '>' rfl
      simp [spelling?, hspace, hclose]
    | cons c h =>
      cases hc : isLike w c with
      | false => simp [spelling?, hc]
      | true =>
        obtain ⟨hs, ht⟩ | ⟨name, rest, rest', hs, ht, hrest⟩ := ih hword h
        · simp [spelling?, hs, ht]
        · exact .inr ⟨c :: name, rest, rest', by simp [spelling?, hc, hs],
            by simp [spelling?, hc, ht], hrest⟩

theorem afterFolded?_slashed {word : List Char}
    (hw : ∀ w ∈ word, ∀ d, isForeign d = true → foldKey w ≠ foldKey d) (h : Slashed s t) :
    (afterFolded? word t).isSome = (afterFolded? word s).isSome := by
  induction word generalizing s t with
  | nil => rfl
  | cons w word ih =>
    obtain ⟨hne, hword⟩ := List.forall_mem_cons.mp hw
    cases h with
    | nil => rfl
    | slash h =>
      have hspace : foldKey w ≠ foldKey ' ' := hne ' ' rfl
      have hclose : foldKey w ≠ foldKey '>' := hne '>' rfl
      simp [afterFolded?, hspace, hclose]
    | cons c h =>
      simp only [afterFolded?]
      split
      · exact ih hword h
      · rfl

-- ---------------------------------------------------------------------------
-- Void start tags in a text with more slashes

theorem spelledName?_slashed (h : Slashed s t) :
    (spelledName? s = none ∧ spelledName? t = none) ∨
      ∃ name rest rest', spelledName? s = some (name, rest) ∧
        spelledName? t = some (name, rest') ∧ Slashed rest rest' := by
  have hall : ∀ word ∈ names, ∀ w ∈ word.toList, ∀ d, isForeign d = true → isLike w d = false :=
    fun word hword w hw d hd => not_isLike_foreign hd word hword w hw
  unfold spelledName?
  generalize names = known at hall
  induction known with
  | nil => exact .inl ⟨rfl, rfl⟩
  | cons word known ih =>
    obtain ⟨hword, hknown⟩ := List.forall_mem_cons.mp hall
    obtain ⟨hs, ht⟩ | ⟨name, rest, rest', hs, ht, hrest⟩ := spelling?_slashed hword h
    · simpa only [List.findSome?_cons, hs, ht] using ih hknown
    · simp only [List.findSome?_cons, hs, ht]
      exact .inr ⟨name, rest, rest', rfl, rfl, hrest⟩

theorem cutAtClose_slashed (h : Slashed s t) :
    (cutAtChar '>' s = none ∧ cutAtChar '>' t = none) ∨
      ∃ inner inner' rest rest', cutAtChar '>' s = some (inner, rest) ∧
        cutAtChar '>' t = some (inner', rest') ∧
          (inner' = inner ∨ inner' = inner ++ [' ', '/']) ∧ Slashed rest rest' := by
  induction h with
  | nil => exact .inl ⟨rfl, rfl⟩
  | slash h => exact .inr ⟨[], [' ', '/'], _, _, rfl, rfl, .inr rfl, h⟩
  | @cons c s t h ih =>
    by_cases hc : c = '>'
    · subst hc
      exact .inr ⟨[], [], s, t, rfl, rfl, .inl rfl, h⟩
    · obtain ⟨hs, ht⟩ | ⟨inner, inner', rest, rest', hs, ht, hinner, hrest⟩ := ih
      · simp [cutAtChar, hc, hs, ht]
      · refine .inr ⟨c :: inner, c :: inner', rest, rest', by simp [cutAtChar, hc, hs],
          by simp [cutAtChar, hc, ht], ?_, hrest⟩
        simpa using hinner

theorem isApart_slash (inner : List Char) : isApart (inner ++ [' ', '/']) = isApart inner := by
  cases inner <;> rfl

/-- The void start tag of a text is there with more slashes in the text, with one of them at its
end or none. -/
theorem startTag?_slashed (h : Slashed s t) :
    (startTag? s = none ∧ startTag? t = none) ∨
      ∃ spot inner rest, startTag? s = some spot ∧ startTag? t = some ⟨spot.name, inner, rest⟩ ∧
        (inner = spot.inner ∨ inner = spot.inner ++ [' ', '/']) ∧ Slashed spot.rest rest := by
  cases h with
  | nil => exact .inl ⟨rfl, rfl⟩
  | slash h => exact .inl ⟨rfl, rfl⟩
  | @cons c s t h =>
    by_cases hc : c = '<'
    · subst hc
      simp only [startTag?]
      obtain ⟨hs, ht⟩ | ⟨name, after, after', hs, ht, hafter⟩ := spelledName?_slashed h
      · simp [hs, ht]
      · simp only [hs, ht]
        obtain ⟨hn, hn'⟩ | ⟨inner, inner', rest, rest', hcut, hcut', hinner, hrest⟩ :=
          cutAtClose_slashed hafter
        · simp [hn, hn']
        · have happart : isApart inner' = isApart inner := by
            obtain rfl | rfl := hinner
            · rfl
            · exact isApart_slash inner
          simp only [hcut, hcut', happart]
          split
          · exact .inr ⟨⟨name, inner, rest⟩, inner', rest', rfl, rfl, hinner, hrest⟩
          · exact .inl ⟨rfl, rfl⟩
    · simp [startTag?, hc]

theorem afterEndName?_slashed {name : List Char}
    (hname : ∀ w ∈ name, ∀ d, isForeign d = true → foldKey w ≠ foldKey d) (h : Slashed s t) :
    (afterEndName? name t).isSome = (afterEndName? name s).isSome := by
  unfold afterEndName?
  obtain h | ⟨u, v, hu, hv⟩ := Markup.Spelling.skipBlanks_slashed h
  · generalize skipBlanks s = s' at h
    generalize skipBlanks t = t' at h
    cases h with
    | nil => rfl
    | slash h => rfl
    | @cons c s t h =>
      by_cases hc : c = '<'
      · subst hc
        cases h with
        | nil => rfl
        | slash h => rfl
        | @cons d s t h =>
          by_cases hd : d = '/'
          · subst hd
            exact afterFolded?_slashed hname h
          · simp [hd]
      · simp [hc]
  · rw [hu, hv]
    rfl

theorem foldKey_of_startTag? {spot : Spot} (h : startTag? s = some spot) :
    ∀ w ∈ spot.name, ∀ d, isForeign d = true → foldKey w ≠ foldKey d := by
  unfold startTag? at h
  split at h
  · split at h
    · cases h
    · rename_i hname
      split at h
      · split at h
        · cases h
          exact fun w hw => ((letters_of_spelledName? hname).2 w hw).2
        · cases h
      · cases h
  · cases h

theorem lone?_slashed (h : Slashed s t) :
    (lone? s = none ∧ lone? t = none) ∨
      ∃ spot inner rest, lone? s = some spot ∧ lone? t = some ⟨spot.name, inner, rest⟩ ∧
        (inner = spot.inner ∨ inner = spot.inner ++ [' ', '/']) ∧ Slashed spot.rest rest := by
  obtain ⟨hs, ht⟩ | ⟨spot, inner, rest, hs, ht, hinner, hrest⟩ := startTag?_slashed h
  · simp [lone?, hs, ht]
  · have hend := afterEndName?_slashed (foldKey_of_startTag? hs) hrest
    simp only [lone?, hs, ht, hend]
    split
    · exact .inl ⟨rfl, rfl⟩
    · exact .inr ⟨spot, inner, rest, rfl, rfl, hinner, hrest⟩

-- ---------------------------------------------------------------------------
-- Once is enough

theorem trimEnd_slash (inner : List Char) : trimEnd (inner ++ [' ', '/']) = inner ++ [' ', '/'] := by
  have hkept : trimEnd (inner ++ [' '] ++ ['/']) = inner ++ [' '] ++ ['/'] :=
    trimEnd_append_blanks rfl (by simp) (inner ++ [' '])
  simpa using hkept

theorem exists_writeLone (spot : Spot) : ∃ inner,
    writeLone spot = '<' :: (spot.name ++ (inner ++ ['>'])) ∧
      (trimEnd inner).getLast? = some '/' ∧
      (inner = spot.inner ∨ inner = spot.inner ++ [' ', '/']) := by
  rw [writeLone]
  split
  · rename_i hend
    exact ⟨spot.inner, by simp [Spot.whole], hend, .inl rfl⟩
  · refine ⟨spot.inner ++ [' ', '/'], by simp [withSlash], ?_, .inr rfl⟩
    rw [trimEnd_slash]
    simp

theorem lone_of_writeLone {spot : Spot} {rest : List Char} (h : lone? s = some spot)
    (hrest : Slashed spot.rest rest) : ∃ again, lone? (writeLone spot ++ rest) = some again ∧
      again.rest = rest ∧ writeLone again = writeLone spot := by
  have hstart := startTag_of_lone? h
  obtain ⟨inner, hwritten, hend, hinner⟩ := exists_writeLone spot
  have hgrown : Slashed s (writeLone spot ++ rest) :=
    whole_append hstart ▸ (slashed_writeLone spot).append hrest
  obtain ⟨hnone, -⟩ | ⟨found, inner', rest', hfound, hagain, -⟩ := lone?_slashed hgrown
  · cases h.symm.trans hnone
  cases h.symm.trans hfound
  -- both ways to cut the tag end at its first `>`
  obtain ⟨-, hclose, -⟩ := parts_of_startTag? hstart
  obtain ⟨htext, hclose', -⟩ := parts_of_startTag? (startTag_of_lone? hagain)
  have hinside : '>' ∉ inner := by
    obtain rfl | rfl := hinner <;> simp_all
  have hcut : cutAtChar '>' (inner ++ '>' :: rest) = some (inner', rest') := by
    have hbehind : inner ++ '>' :: rest = inner' ++ '>' :: rest' := by
      simpa [hwritten] using htext
    rw [hbehind]
    exact Text.cutAtChar_append (fun hm => hclose' (List.mem_append_right _ hm)) _
  cases (Text.cutAtChar_append hinside _).symm.trans hcut
  refine ⟨_, hagain, rfl, ?_⟩
  rw [writeLone, if_pos hend, hwritten]
  simp [Spot.whole]

theorem closeLone_closeLone (s : List Char) : closeLone (closeLone s) = closeLone s := by
  induction hn : s.length using Nat.strongRecOn generalizing s with
  | ind n ih =>
    subst hn
    cases s with
    | nil =>
      have hnil : closeLone [] = [] := Text.substitute_nil _
      rw [hnil, hnil]
    | cons c s =>
      cases hspot : lone? (c :: s) with
      | none =>
        have hkept : closeLone (c :: s) = c :: closeLone s := replaceSpots_of_none hspot
        obtain ⟨-, hnone⟩ | ⟨spot, -, -, hsome, -⟩ := lone?_slashed (.cons c (slashed_closeLone s))
        · have hagain : closeLone (c :: closeLone s) = c :: closeLone (closeLone s) :=
            replaceSpots_of_none hnone
          rw [hkept, hagain, ih s.length (Nat.lt_succ_self _) s rfl]
        · cases hspot.symm.trans hsome
      | some spot =>
        have hwritten : closeLone (c :: s) = writeLone spot ++ closeLone spot.rest :=
          replaceSpots_of_some hspot
        obtain ⟨again, hagain, hrest, hsame⟩ :=
          lone_of_writeLone hspot (slashed_closeLone spot.rest)
        have hrewritten : closeLone (writeLone spot ++ closeLone spot.rest) =
            writeLone again ++ closeLone again.rest := replaceSpots_of_some hagain
        rw [hwritten, hrewritten, hsame, hrest, ih spot.rest.length (rest_of_lone? hspot) _ rfl]

/-- Closing the void start tags of a text twice is closing them once, and all that it does is to put
a space and a slash before some `>` of the text. -/
theorem normalize_puts_slashes_once (text : String) :
    normalize (normalize text) = normalize text ∧
      Slashed text.toList (normalize text).toList := by
  refine ⟨?_, slashed_normalize text⟩
  rw [normalize, normalize, String.toList_ofList, closeLone_closeLone]

end VoidElement

end Mailgrid
