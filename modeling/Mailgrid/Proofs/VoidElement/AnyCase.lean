import Mailgrid.Component
import Mailgrid.Proofs.Markup.SlashedTags
import Mailgrid.Proofs.Text.Fold
import Mailgrid.Proofs.VoidElement.Spans

/-!
# Void tags in any case

Whether a void start tag stands alone is told by the end tag behind it, in any
case. So what is put into a text does not depend on the case of what follows,
and names of components, which are no names of void elements, are passed over.
-/

namespace Mailgrid

variable {s t u x name : List Char} {c w : Char}

-- ---------------------------------------------------------------------------
-- Characters

namespace Text

theorem toLower_of_not_ascii (h : ¬ c.toNat < 0x80) : c.toLower = c := by
  refine dif_neg ?_
  simp only [ge_iff_le, UInt32.le_iff_toNat_le]
  have hval : c.toNat = c.val.toNat := rfl
  have hlast : 'Z'.val.toNat = 90 := rfl
  omega

theorem of_toLower {α : Type} {f : Char → α}
    (h : ∀ c, c.toNat < 0x80 → f c.toLower = f c) (c : Char) : f c.toLower = f c := by
  by_cases hc : c.toNat < 0x80
  · exact h c hc
  · rw [toLower_of_not_ascii hc]

theorem isBlank_toLower (c : Char) : isBlank c.toLower = isBlank c :=
  of_toLower (fun c hc =>
    Markup.of_ascii (P := fun c => isBlank c.toLower = isBlank c) (by decide) hc) c

theorem foldKey_toLower (c : Char) : foldKey c.toLower = foldKey c :=
  of_toLower (fun c hc =>
    Markup.of_ascii (P := fun c => foldKey c.toLower = foldKey c) (by decide) hc) c

theorem toLower_beq {d : Char} (hd : d ∈ ['<', '/', '>']) (c : Char) :
    (c.toLower == d) = (c == d) := by
  refine of_toLower (f := (· == d)) (fun c hc => ?_) c
  have hall : ∀ d ∈ ['<', '/', '>'], ∀ n < 0x80,
      ((Char.ofNat n).toLower == d) = (Char.ofNat n == d) := by decide
  exact Markup.of_ascii (P := fun c => (c.toLower == d) = (c == d)) (hall d hd) hc

theorem skipBlanks_toLower (s : List Char) :
    skipBlanks (s.map Char.toLower) = (skipBlanks s).map Char.toLower := by
  have hblank : isBlank ∘ Char.toLower = isBlank := funext isBlank_toLower
  rw [skipBlanks, skipBlanks, List.dropWhile_map, hblank]

theorem afterFolded?_toLower (word s : List Char) :
    afterFolded? word (s.map Char.toLower) = (afterFolded? word s).map (·.map Char.toLower) := by
  induction word generalizing s with
  | nil => rfl
  | cons w word ih =>
    cases s with
    | nil => rfl
    | cons c s =>
      simp only [List.map_cons, afterFolded?, foldKey_toLower]
      split
      · exact ih s
      · rfl

theorem isLike_toLower (w c : Char) : isLike w c.toLower = isLike w c :=
  of_toLower (f := isLike w) (fun c hc => by
    have hspecial : ∀ d ∈ ['ſ', 'ı'], ∀ n < 0x80,
        ((Char.ofNat n).toLower == d) = (Char.ofNat n == d) := by decide
    have hsame {d : Char} (hd : d ∈ ['ſ', 'ı']) : (c.toLower == d) = (c == d) :=
      Markup.of_ascii (P := fun c => (c.toLower == d) = (c == d)) (hspecial d hd) hc
    rw [isLike, isLike, foldKey_toLower, hsame (by decide), hsame (by decide)]) c

theorem spelling?_toLower (word s : List Char) : spelling? word (s.map Char.toLower) =
    (spelling? word s).map fun (spelled, rest) =>
      (spelled.map Char.toLower, rest.map Char.toLower) := by
  induction word generalizing s with
  | nil => rfl
  | cons w word ih =>
    cases s with
    | nil => rfl
    | cons c s =>
      simp only [List.map_cons, spelling?, isLike_toLower]
      split
      · rw [ih s, Option.map_map, Option.map_map]
        rfl
      · rfl

end Text

-- ---------------------------------------------------------------------------
-- Spellings of components

/-- The standard tag of a component in any case. -/
def Component.IsSpelled (kind : Component) (name : List Char) : Prop :=
  name.map Char.toLower = kind.standardTag.toList

instance (kind : Component) (name : List Char) : Decidable (kind.IsSpelled name) :=
  inferInstanceAs (Decidable (_ = _))

theorem Component.isSpelled_standardTag (kind : Component) :
    kind.IsSpelled kind.standardTag.toList := by
  cases kind <;> decide

namespace Component.IsSpelled

variable {kind : Component}

theorem isNameLetter (h : kind.IsSpelled name) : ∀ c ∈ name, Markup.isNameLetter c = true := by
  have hletters : ∀ kind : Component, ∀ c ∈ kind.standardTag.toList,
      Markup.isNameLetter c = true := by
    intro kind
    cases kind <;> decide
  intro c hc
  have hlower := List.mem_map_of_mem (f := Char.toLower) hc
  rw [h] at hlower
  have hsame : Markup.isNameLetter c.toLower = Markup.isNameLetter c :=
    Text.of_toLower (fun c hc => Markup.of_ascii
      (P := fun c => Markup.isNameLetter c.toLower = Markup.isNameLetter c) (by decide) hc) c
  exact hsame.symm.trans (hletters kind _ hlower)

theorem exists_letter (h : kind.IsSpelled name) : ∃ c more, name = c :: more ∧ c.isAlpha = true := by
  have hfirst : ∀ kind : Component, kind.standardTag.toList.head?.any Char.isAlpha = true := by
    intro kind
    cases kind <;> rfl
  have hletter := hfirst kind
  rw [← h] at hletter
  cases name with
  | nil => cases hletter
  | cons c more =>
    have hsame : c.toLower.isAlpha = c.isAlpha :=
      Text.of_toLower (fun c hc => Markup.of_ascii
        (P := fun c => c.toLower.isAlpha = c.isAlpha) (by decide) hc) c
    exact ⟨c, more, rfl, hsame.symm.trans hletter⟩

theorem lower (h : kind.IsSpelled name) : Text.lower name = kind.standardTag.toList := by
  rw [Text.lower_of_ascii fun c hc => Markup.ascii_of_isNameLetter (h.isNameLetter c hc)]
  exact h

theorem not_mem (h : kind.IsSpelled name) (hc : Markup.isNameLetter c = false) : c ∉ name :=
  fun hm => by
    rw [h.isNameLetter c hm] at hc
    cases hc

end Component.IsSpelled

-- ---------------------------------------------------------------------------
-- Void tags

namespace VoidElement

open Markup (SlashedTo)

theorem afterEndName?_toLower (name s : List Char) :
    afterEndName? name (s.map Char.toLower) =
      (afterEndName? name s).map (·.map Char.toLower) := by
  have hsign {d : Char} (hd : d ∈ ['<', '/', '>']) (c : Char) : c.toLower = d ↔ c = d := by
    simpa using congrArg (· = true) (Text.toLower_beq hd c)
  unfold afterEndName?
  rw [Text.skipBlanks_toLower]
  match Text.skipBlanks s with
  | [] => rfl
  | [c] => simp
  | c :: d :: rest =>
    by_cases h : c = '<' ∧ d = '/'
    · obtain ⟨rfl, rfl⟩ := h
      exact Text.afterFolded?_toLower name rest
    · simp only [List.map_cons]
      split
      · rename_i he
        obtain ⟨hc, he⟩ := List.cons.inj he
        exact absurd ⟨(hsign (by decide) c).mp hc, (hsign (by decide) d).mp (List.cons.inj he).1⟩ h
      · split
        · rename_i he
          cases he
          exact absurd ⟨rfl, rfl⟩ h
        · rfl

theorem isLone_toLower (a : List Char) (h : s.map Char.toLower = t.map Char.toLower) :
    isLone a t = isLone a s := by
  have hsame (name : List Char) :
      (afterEndName? name t).isNone = (afterEndName? name s).isNone := by
    have hlower := congrArg Option.isNone (afterEndName?_toLower name s)
    rw [h, afterEndName?_toLower, Option.isNone_map, Option.isNone_map] at hlower
    exact hlower
  simp only [isLone, hsame]

/-- No void start tag reaches from this part of a text to the `>` behind it without a slash. -/
def IsFirm (u s : List Char) : Prop :=
  ∀ v, v <:+ u → '>' ∉ v → ∀ spot, lone? (v ++ '>' :: s) = some spot →
    (Text.trimEnd spot.inner).getLast? = some '/'

theorem IsFirm.closeSpan (h : IsFirm u s) (hu : '>' ∉ u) : closeSpan u s = u := by
  refine if_neg fun hopen => ?_
  obtain ⟨hlone, hslash⟩ := Bool.and_eq_true_iff.mp hopen
  obtain ⟨v, name, inner, ⟨before, rfl⟩, htag, hend⟩ := isLone_iff.mp hlone
  have hv : '>' ∉ v := fun hm => hu (List.mem_append_right _ hm)
  have hspot := h v (List.suffix_append before v) hv _
    ((lone?_span hv _).mpr ⟨name, inner, htag, hend, rfl⟩)
  obtain ⟨rfl, hname, -⟩ := (voidTag?_iff fun _ => isNearlyApart_of_isApart).mp htag
  rw [(hasSlash_tag hname before inner).mpr hspot] at hslash
  cases hslash

theorem slashed_closeSpan (u s : List Char) : Slashed (u ++ ['>']) (closeSpan u s ++ ['>']) := by
  rw [closeSpan]
  split
  · rw [List.append_assoc]
    exact .append (.refl u) (.slash .nil)
  · exact .refl _

theorem slashedTo_closeSpan (hu : '>' ∉ u) (s : List Char) :
    ∃ b, (∀ rest, SlashedTo rest b (u ++ '>' :: rest) (closeSpan u s ++ '>' :: rest)) ∧
      (IsFirm u s → b = false) := by
  cases hopen : isLone u s && !hasSlash u with
  | false =>
    rw [closeSpan, hopen]
    exact ⟨false, fun _ => .append (.refl u) .kept, fun _ => rfl⟩
  | true =>
    refine ⟨true, fun rest => ?_, fun h => ?_⟩
    · rw [closeSpan, hopen, if_pos rfl, List.append_assoc]
      exact .append (.refl u) .last
    · have hsame := h.closeSpan hu
      rw [closeSpan, hopen, if_pos rfl] at hsame
      simp at hsame

/-- Up to a `>` the same slashes are put into a text, whatever the case of what follows. -/
theorem closeLone_alike (h : s.map Char.toLower = t.map Char.toLower) (u : List Char) :
    ∃ v b, (∀ rest, SlashedTo rest b (u ++ '>' :: rest) (v ++ '>' :: rest)) ∧
      (IsFirm u s → b = false) ∧ closeLone (u ++ '>' :: s) = v ++ '>' :: closeLone s ∧
        closeLone (u ++ '>' :: t) = v ++ '>' :: closeLone t := by
  induction hn : u.length using Nat.strongRecOn generalizing u with
  | ind n ih =>
    subst hn
    by_cases hclose : '>' ∈ u
    · obtain ⟨a, more, rfl, ha⟩ := List.eq_append_cons_of_mem hclose
      have hlength : more.length < (a ++ '>' :: more).length := by
        simp only [List.length_append, List.length_cons]
        omega
      obtain ⟨v, b, hslashed, hfirm, hs, ht⟩ := ih more.length hlength more rfl
      have hlower : (more ++ '>' :: s).map Char.toLower = (more ++ '>' :: t).map Char.toLower := by
        simp only [List.map_append, List.map_cons, h]
      refine ⟨closeSpan a (more ++ '>' :: s) ++ '>' :: v, b, fun rest => ?_, fun hf => ?_, ?_, ?_⟩
      · have hspan := SlashedTo.append (slashed_closeSpan a (more ++ '>' :: s)) (hslashed rest)
        simpa using hspan
      · exact hfirm fun w hw => hf w (hw.trans ⟨a ++ ['>'], by simp⟩)
      · rw [List.append_assoc, List.cons_append, closeLone_span ha, hs]
        simp
      · rw [List.append_assoc, List.cons_append, closeLone_span ha, ht, closeSpan, closeSpan,
          isLone_toLower a hlower]
        simp
    · obtain ⟨b, hslashed, hfirm⟩ := slashedTo_closeSpan hclose s
      refine ⟨closeSpan u s, b, hslashed, hfirm, closeLone_span hclose s, ?_⟩
      rw [closeLone_span hclose t, closeSpan, closeSpan, isLone_toLower u h]

-- ---------------------------------------------------------------------------
-- Names of components

theorem closeLone_of_not_mem (h : '<' ∉ u) (s : List Char) :
    closeLone (u ++ s) = u ++ closeLone s :=
  replaceSpots_append fun _ hs hne _ =>
    stays_of_not_mem (fun h => start_of_startTag? (startTag_of_lone? h)) h hs hne

theorem spelledName?_toLower (s : List Char) : spelledName? (s.map Char.toLower) =
    (spelledName? s).map fun (name, rest) => (name.map Char.toLower, rest.map Char.toLower) := by
  simp only [spelledName?, Text.spelling?_toLower, List.map_findSome?, Function.comp_def]

theorem spelledName?_of_not_isAlpha (hc : c.toNat < 0x80) (h : c.isAlpha = false) (s : List Char) :
    spelledName? (c :: s) = none := by
  have hletters : ∀ word ∈ names, word.toList ≠ [] ∧ ∀ w ∈ word.toList, w.isAlpha = true := by decide
  have hsame : c.toLower.isAlpha = c.isAlpha :=
    Markup.of_ascii (P := fun c => c.toLower.isAlpha = c.isAlpha) (by decide) hc
  refine List.findSome?_eq_none_iff.mpr fun word hword => ?_
  obtain ⟨hne, hall⟩ := hletters word hword
  cases hw : word.toList with
  | nil => exact absurd hw hne
  | cons w more =>
    rw [Text.spelling?, if_neg]
    intro hlike
    have hletter := hall w (hw ▸ List.mem_cons_self)
    rw [← Text.toLower_of_isLike hc hlike, hsame, h] at hletter
    cases hletter

theorem closeLone_bare (hc : c.toNat < 0x80) (h : c.isAlpha = false) (s : List Char) :
    closeLone ('<' :: c :: s) = '<' :: closeLone (c :: s) := by
  refine replaceSpots_of_none ?_
  rw [lone?, startTag?, spelledName?_of_not_isAlpha hc h]

/-- What is a void element's name is at most the first part of a component's. -/
theorem startTag?_component {kind : Component} (h : kind.IsSpelled name) (x : List Char) :
    startTag? ('<' :: (name ++ x)) = none := by
  have hpart (kind : Component) (x : List Char) :
      (spelledName? (kind.standardTag.toList ++ x)).all
        (fun (_, rest) => rest.head?.any fun c => !Text.isBlank c && c != '>') = true := by
    cases kind <;> rfl
  have hfirst := hpart kind (x.map Char.toLower)
  rw [← h, ← List.map_append, spelledName?_toLower] at hfirst
  rw [startTag?]
  cases hspelled : spelledName? (name ++ x) with
  | none => rfl
  | some found =>
    obtain ⟨first, rest⟩ := found
    rw [hspelled] at hfirst
    cases rest with
    | nil => cases hfirst
    | cons c rest =>
      simp only [Option.map_some, Option.all_some, List.map_cons, List.head?_cons, Option.any_some,
        Bool.and_eq_true, Bool.not_eq_true', Text.isBlank_toLower] at hfirst
      obtain ⟨hblank, hclose⟩ := hfirst
      have hne : ¬ c = '>' := by
        rintro rfl
        cases hclose
      simp only [Text.cutAtChar, if_neg hne]
      cases Text.cutAtChar '>' rest with
      | none => rfl
      | some parts => simp [isApart, hblank]

theorem closeLone_component {kind : Component} (h : kind.IsSpelled name) (x : List Char) :
    closeLone ('<' :: (name ++ x)) = '<' :: (name ++ closeLone x) := by
  have hnone : lone? ('<' :: (name ++ x)) = none := by
    rw [lone?, startTag?_component h]
  have hfirst : closeLone ('<' :: (name ++ x)) = '<' :: closeLone (name ++ x) :=
    replaceSpots_of_none hnone
  rw [hfirst, closeLone_of_not_mem (h.not_mem rfl)]

theorem closeLone_endTag (h : '<' ∉ name) (x : List Char) :
    closeLone ('<' :: '/' :: (name ++ x)) = '<' :: '/' :: (name ++ closeLone x) := by
  have hfirst : closeLone ('<' :: '/' :: (name ++ x)) = '<' :: closeLone ('/' :: name ++ x) :=
    replaceSpots_of_none rfl
  rw [hfirst, closeLone_of_not_mem (by simp [h])]
  rfl

end VoidElement

end Mailgrid
