import Mailgrid.Proofs.VoidElement.Once
import Mailgrid.Proofs.VoidElement.Spans
import Mathlib.Data.List.Chain

/-!
# Documents that are canonical already

Each of the three changes keeps every span up to the first tag in it that is
written anew, so what is seen at the start of the next span is seen there
afterwards, too. What a change leaves has nothing to change, but for three
things: two end tags may follow a pair of tags, of which each pass takes one; a
tag that is opened may hold a void start tag, which has then lost its slash; and
it may have had two slashes, of which each pass takes one.
-/

namespace Mailgrid.VoidElement

open Mailgrid.Markup (isLoose)
open Mailgrid.Text (isBlank skipBlanks trimEnd lowerString foldKey afterFolded?)

variable {a b c u x y z name inner core tail : List Char} {spans : List (List Char)}

-- ---------------------------------------------------------------------------
-- Spans that start alike

/-- Two spans are the same, or the same up to a tag that is no end tag. -/
def StartAlike (a b : List Char) : Prop :=
  a = b ∨ ∃ u d x y, d ≠ '/' ∧ a = u ++ '<' :: d :: x ∧ b = u ++ '<' :: d :: y

theorem parts_of_isEndTag (hname : IsVoidName name) (h : isEndTag name b = true) :
    ∃ blanks rest, b = blanks ++ '<' :: '/' :: rest ∧ '<' ∉ blanks ++ rest := by
  unfold isEndTag afterEndName? at h
  split at h
  · rename_i more hmore
    split at hmore
    · rename_i rest hrest
      have hb : b = b.takeWhile isBlank ++ '<' :: '/' :: rest := by
        rw [← hrest]
        exact List.takeWhile_append_dropWhile.symm
      refine ⟨_, rest, hb, ?_⟩
      rw [List.mem_append, not_or]
      constructor
      · intro hm
        cases List.mem_takeWhile_imp hm
      · intro hm
        have hletters (w : Char) (hw : w ∈ name) : foldKey w ≠ foldKey '<' :=
          (hname.letters.2 w hw).2 '<' rfl
        have hblank := List.dropWhile_eq_nil_iff.mp (List.isEmpty_iff.mp h) '<'
          (Text.mem_of_afterFolded? hletters hm hmore)
        cases hblank
    · cases hmore
  · cases h

theorem not_isEndTag_of_tag (hname : IsVoidName name) {d : Char} (hd : d ≠ '/') :
    isEndTag name (u ++ '<' :: d :: x) = false := by
  cases hend : isEndTag name (u ++ '<' :: d :: x) with
  | false => rfl
  | true =>
    obtain ⟨blanks, rest, he, hnone⟩ := parts_of_isEndTag hname hend
    simp only [List.mem_append, not_or] at hnone
    have hsuffix : '<' :: d :: x <:+ '<' :: '/' :: rest :=
      Text.suffix_of_not_mem hnone.1 (he ▸ List.suffix_append u _)
    rcases List.suffix_cons_iff.mp hsuffix with he | hs
    · exact absurd (List.cons.inj (List.cons.inj he).2).1 hd
    · have hmem : '<' ∈ '/' :: rest := hs.subset List.mem_cons_self
      exact absurd hmem (by simp [hnone.2])

theorem afterEndName?_tag (hname : IsVoidName name) {d : Char} (hd : d ≠ '/') (u x y : List Char) :
    (afterEndName? name (u ++ '<' :: d :: x)).isSome =
      (afterEndName? name (u ++ '<' :: d :: y)).isSome := by
  by_cases hu : skipBlanks u = []
  · have hskip (v : List Char) : skipBlanks (u ++ '<' :: v) = '<' :: v := by
      rw [skipBlanks_foreign rfl, hu]
      rfl
    simp [afterEndName?, hskip, hd]
  · rw [afterEndName?_foreign hname rfl rfl (by decide) u hu,
      afterEndName?_foreign hname rfl rfl (by decide) u hu, Option.isSome_map, Option.isSome_map]

theorem StartAlike.isEndTag (h : StartAlike a b) (hname : IsVoidName name)
    (hb : isEndTag name b = true) : a = b := by
  obtain rfl | ⟨u, d, x, y, hd, rfl, rfl⟩ := h
  · rfl
  · rw [not_isEndTag_of_tag hname hd] at hb
    cases hb

theorem StartAlike.afterEndName? (h : StartAlike a b) (hname : IsVoidName name) (x y : List Char) :
    (afterEndName? name (a ++ '>' :: x)).isSome = (afterEndName? name (b ++ '>' :: y)).isSome := by
  obtain rfl | ⟨u, d, v, w, hd, rfl, rfl⟩ := h
  · rw [afterEndName?_span hname, afterEndName?_span hname, Option.isSome_map, Option.isSome_map]
  · simpa using afterEndName?_tag hname hd u (v ++ '>' :: x) (w ++ '>' :: y)

/-- The first spans of two texts start alike. -/
inductive HeadsAlike : List (List Char) → List (List Char) → Prop
  | nil : HeadsAlike [] []
  | cons {a b : List Char} (spans spans' : List (List Char)) :
      StartAlike a b → HeadsAlike (a :: spans) (b :: spans')

theorem HeadsAlike.afterEndName? {spans' : List (List Char)} (h : HeadsAlike spans spans')
    (hname : IsVoidName name) (tail : List Char) :
    (afterEndName? name (unite spans tail)).isSome =
      (afterEndName? name (unite spans' tail)).isSome := by
  cases h with
  | nil => rfl
  | cons _ _ h =>
    rw [unite_cons, unite_cons]
    exact h.afterEndName? hname _ _

theorem HeadsAlike.isEndTag {spans' : List (List Char)} (h : HeadsAlike spans spans')
    (hname : IsVoidName name) (hb : b ∈ spans'.head?) (hend : isEndTag name b = true) :
    b ∈ spans.head? := by
  cases h with
  | nil => cases hb
  | cons _ _ h =>
    cases hb
    rw [h.isEndTag hname hend]
    rfl

-- ---------------------------------------------------------------------------
-- Tags in what is left of a span

theorem not_mem_loose (hz : ∀ c ∈ z, isLoose c = true) : '<' ∉ z :=
  fun hm => Bool.noConfusion (hz _ hm)

/-- A tag in a span with blanks and slashes behind starts in the span, and its name is there. -/
theorem exists_tag_of_append (hz : ∀ c ∈ z, isLoose c = true)
    (hname : name ≠ [] ∧ ∀ c ∈ name, isLoose c = false)
    (h : core ++ z = u ++ '<' :: (name ++ inner)) :
    ∃ rest, core = u ++ '<' :: (name ++ rest) ∧ inner = rest ++ z := by
  rcases List.append_eq_append_iff.mp h with ⟨v, -, hv⟩ | ⟨v, rfl, hv⟩
  · exact absurd (by simp [hv]) (not_mem_loose hz)
  · cases v with
    | nil =>
      have hmem : '<' ∈ z := (show '<' :: (name ++ inner) = z from hv) ▸ List.mem_cons_self
      exact absurd hmem (not_mem_loose hz)
    | cons d v =>
      rw [List.cons_append] at hv
      obtain ⟨rfl, hbehind⟩ := List.cons.inj hv
      rcases List.append_eq_append_iff.mp hbehind with ⟨w, rfl, hw⟩ | ⟨w, hw, hinner⟩
      · exact ⟨w, rfl, hw⟩
      · cases w with
        | nil => exact ⟨[], by simpa using hw.symm, by simpa using hinner.symm⟩
        | cons e w =>
          have hloose := hz e (by simp [hinner])
          rw [hname.2 e (by simp [hw])] at hloose
          cases hloose

theorem IsVoidName.tight (h : IsVoidName name) :
    name ≠ [] ∧ ∀ c ∈ name, isLoose c = false := by
  refine ⟨h.letters.1, fun c hc => ?_⟩
  have hletter := (h.letters.2 c hc).1
  simp only [isForeign, Bool.or_eq_false_iff] at hletter
  exact hletter.1.1

theorem mem_voids_isApart : name ∈ voids isApart a ↔ ∃ before inner,
    a = before ++ '<' :: (name ++ inner) ∧ IsVoidName name ∧ isApart inner = true :=
  mem_voids_iff fun _ => isNearlyApart_of_isApart

theorem mem_voids_isNearlyApart : name ∈ voids isNearlyApart a ↔ ∃ before inner,
    a = before ++ '<' :: (name ++ inner) ∧ IsVoidName name ∧ isNearlyApart inner = true :=
  mem_voids_iff fun _ h => h

theorem voids_slash (h : name ∈ voids isApart (a ++ [' ', '/'])) : name ∈ voids isApart a := by
  obtain ⟨before, inner, he, hname, hinner⟩ := mem_voids_isApart.mp h
  obtain ⟨rest, rfl, rfl⟩ := exists_tag_of_append (by decide) hname.tight he
  rw [isApart_slash] at hinner
  exact mem_voids_isApart.mpr ⟨before, rest, rfl, hname, hinner⟩

/-- A void start tag in what is left of a span is one in the span, or nearly. -/
theorem voids_append (hz : ∀ c ∈ z, isLoose c = true) (h : name ∈ voids isApart core) :
    name ∈ voids isNearlyApart (core ++ z) := by
  obtain ⟨before, inner, rfl, hname, hinner⟩ := mem_voids_isApart.mp h
  refine mem_voids_isNearlyApart.mpr ⟨before, inner ++ z, ?_, hname, isNearlyApart_append hz hinner⟩
  simp

theorem exists_bare (a : List Char) :
    ∃ z, a = bare a ++ z ∧ ∀ c ∈ z, isLoose c = true := by
  obtain ⟨x, hx, hx'⟩ := exists_trimEnd a
  obtain ⟨y, hy, hy'⟩ := exists_dropSlashes (trimEnd a)
  obtain ⟨z, hz, hz'⟩ := exists_trimEnd (dropSlashes (trimEnd a))
  refine ⟨z ++ (y ++ x), ?_, ?_⟩
  · rw [bare, ← List.append_assoc, ← hz, ← List.append_assoc, ← hy, ← hx]
  · exact List.forall_mem_append.mpr ⟨hz', List.forall_mem_append.mpr ⟨hy', hx'⟩⟩

theorem voids_bare (h : name ∈ voids isApart (bare a ++ [' ', '/'])) :
    name ∈ voids isNearlyApart a := by
  obtain ⟨z, ha, hz⟩ := exists_bare a
  rw [ha]
  exact voids_append hz (voids_slash h)

theorem isVoidName_of_mem_voids (h : name ∈ voids isApart a) : IsVoidName name := by
  obtain ⟨-, -, -, hname, -⟩ := mem_voids_isApart.mp h
  exact hname

-- ---------------------------------------------------------------------------
-- Pairs are joined once

/-- No pair of tags has another end tag of a void element in its first span behind it. -/
def endsOnce : List (List Char) → Bool
  | a :: b :: c :: spans =>
    !(joins a b && (voids isNearlyApart a).any (isEndTag · c)) && endsOnce (b :: c :: spans)
  | _ => true

/-- No span is the end tag of a void start tag in the one before. -/
def AreApart (spans : List (List Char)) : Prop :=
  spans.IsChain fun a b => joins a b = false

theorem exists_letter (h : name ∈ voids isApart a) : ∃ u d x, d ≠ '/' ∧ isLoose d = false ∧
    a = u ++ '<' :: d :: x := by
  obtain ⟨before, inner, rfl, hname, -⟩ := mem_voids_isApart.mp h
  obtain ⟨hne, htight⟩ := hname.tight
  obtain ⟨d, rest, rfl⟩ := List.exists_cons_of_ne_nil hne
  have hd := htight d List.mem_cons_self
  refine ⟨before, d, rest ++ inner, ?_, hd, by simp⟩
  rintro rfl
  cases hd

theorem startAlike_bare (h : name ∈ voids isApart a) : StartAlike a (bare a ++ [' ', '/']) := by
  obtain ⟨u, d, x, hslash, hd, rfl⟩ := exists_letter h
  have hbare := bare_append hd (u ++ ['<']) x
  refine .inr ⟨u, d, x, bare x ++ [' ', '/'], hslash, rfl, ?_⟩
  rw [List.append_assoc, List.singleton_append] at hbare
  rw [hbare]
  simp

theorem startAlike_slash (h : name ∈ voids isApart a) : StartAlike a (a ++ [' ', '/']) := by
  obtain ⟨u, d, x, hslash, -, rfl⟩ := exists_letter h
  exact .inr ⟨u, d, x, x ++ [' ', '/'], hslash, rfl, by simp⟩

theorem exists_mem_of_joins (h : joins a b = true) :
    ∃ name ∈ voids isApart a, isEndTag name b = true :=
  List.any_eq_true.mp h

theorem headsAlike_joinSpans (spans : List (List Char)) : HeadsAlike spans (joinSpans spans) := by
  match spans with
  | [] => exact .nil
  | [a] => exact .cons _ _ (.inl rfl)
  | a :: b :: spans =>
    rw [joinSpans]
    split
    · rename_i hjoins
      obtain ⟨name, hname, -⟩ := exists_mem_of_joins hjoins
      exact .cons _ _ (startAlike_bare hname)
    · exact .cons _ _ (.inl rfl)

theorem endsOnce_of_cons (h : endsOnce (a :: spans) = true) : endsOnce spans = true := by
  match spans with
  | [] => rfl
  | [b] => rfl
  | b :: c :: spans =>
    rw [endsOnce, Bool.and_eq_true] at h
    exact h.2

theorem joins_eq_false {b' : List Char} {spans' : List (List Char)}
    (halike : HeadsAlike spans spans') (hb : b' ∈ spans'.head?)
    (h : ∀ name ∈ voids isApart a, ∀ b ∈ spans.head?, isEndTag name b = false) :
    joins a b' = false := by
  cases hjoins : joins a b' with
  | false => rfl
  | true =>
    obtain ⟨name, hname, hend⟩ := exists_mem_of_joins hjoins
    have hsame := halike.isEndTag (isVoidName_of_mem_voids hname) hb hend
    rw [h name hname b' hsame] at hend
    cases hend

theorem areApart_joinSpans (h : endsOnce spans = true) : AreApart (joinSpans spans) := by
  induction spans using joinSpans.induct with
  | case1 a b spans hjoins ih =>
    rw [joinSpans, if_pos hjoins]
    refine List.isChain_cons.mpr ⟨fun c hc => ?_, ih (endsOnce_of_cons (endsOnce_of_cons h))⟩
    refine joins_eq_false (headsAlike_joinSpans spans) hc fun name hname d hd => ?_
    -- behind the pair there would be another end tag
    cases spans with
    | nil => cases hd
    | cons e spans =>
      cases hd
      rw [endsOnce, hjoins, Bool.true_and, Bool.and_eq_true, Bool.not_eq_true'] at h
      have hnone := List.any_eq_false.mp h.1 name (voids_bare hname)
      exact Bool.eq_false_iff.mpr hnone
  | case2 a b spans hjoins ih =>
    rw [joinSpans, if_neg hjoins]
    refine List.isChain_cons.mpr ⟨fun c hc => ?_, ih (endsOnce_of_cons h)⟩
    refine joins_eq_false (headsAlike_joinSpans (b :: spans)) hc fun name hname d hd => ?_
    cases hd
    exact Bool.eq_false_iff.mpr (List.any_eq_false.mp (Bool.eq_false_iff.mpr hjoins) name hname)
  | case3 spans hshort =>
    cases spans with
    | nil => exact .nil
    | cons a spans =>
      cases spans with
      | nil => exact .singleton a
      | cons b spans => exact absurd rfl (hshort a b spans)

theorem joinSpans_eq_self (h : AreApart spans) : joinSpans spans = spans := by
  induction spans using joinSpans.induct with
  | case1 a b spans hjoins ih =>
    rw [(List.isChain_cons_cons.mp h).1] at hjoins
    cases hjoins
  | case2 a b spans hjoins ih =>
    rw [joinSpans, if_neg hjoins, ih (List.isChain_cons_cons.mp h).2]
  | case3 spans hshort =>
    cases spans with
    | nil => rfl
    | cons a spans =>
      cases spans with
      | nil => rfl
      | cons b spans => exact absurd rfl (hshort a b spans)

-- ---------------------------------------------------------------------------
-- Slashes are put once

/-- Every void start tag that is alone has its slash. -/
def AreClosed (tail : List Char) : List (List Char) → Prop
  | [] => True
  | a :: spans => (isLone a (unite spans tail) = true → hasSlash a = true) ∧ AreClosed tail spans

theorem hasSlash_slash (a : List Char) : hasSlash (a ++ [' ', '/']) = true := by
  rw [hasSlash, trimEnd_slash]
  simp

theorem closeSpan_cases (a y : List Char) :
    (closeSpan a y = a ∧ (isLone a y = true → hasSlash a = true)) ∨
      (closeSpan a y = a ++ [' ', '/'] ∧ ∃ name, name ∈ voids isApart a) := by
  rw [closeSpan]
  split
  · rename_i h
    rw [Bool.and_eq_true] at h
    obtain ⟨name, hname, -⟩ := List.any_eq_true.mp h.1
    exact .inr ⟨rfl, name, hname⟩
  · rename_i h
    refine .inl ⟨rfl, fun hlone => ?_⟩
    simpa [hlone] using h

theorem headsAlike_closeSpans (tail : List Char) (spans : List (List Char)) :
    HeadsAlike spans (closeSpans tail spans) := by
  cases spans with
  | nil => exact .nil
  | cons a spans =>
    refine .cons _ _ ?_
    obtain ⟨hsame, -⟩ | ⟨hslash, name, hname⟩ := closeSpan_cases a (unite spans tail)
    · exact .inl hsame.symm
    · rw [hslash]
      exact startAlike_slash hname

theorem isLone_alike {spans' : List (List Char)} (h : HeadsAlike spans spans') (a tail : List Char) :
    isLone a (unite spans tail) = isLone a (unite spans' tail) := by
  refine Bool.eq_iff_iff.mpr ?_
  simp only [isLone, List.any_eq_true]
  have hsame (name : List Char) (hname : name ∈ voids isApart a) :
      (afterEndName? name (unite spans tail)).isNone =
        (afterEndName? name (unite spans' tail)).isNone := by
    rw [← Option.not_isSome, ← Option.not_isSome,
      h.afterEndName? (isVoidName_of_mem_voids hname)]
  constructor
  · rintro ⟨name, hname, hnone⟩
    exact ⟨name, hname, hsame name hname ▸ hnone⟩
  · rintro ⟨name, hname, hnone⟩
    exact ⟨name, hname, hsame name hname ▸ hnone⟩

theorem areClosed_closeSpans (tail : List Char) (spans : List (List Char)) :
    AreClosed tail (closeSpans tail spans) := by
  induction spans with
  | nil => trivial
  | cons a spans ih =>
    refine ⟨?_, ih⟩
    rw [← isLone_alike (headsAlike_closeSpans tail spans)]
    obtain ⟨hsame, hlone⟩ | ⟨hslash, -⟩ := closeSpan_cases a (unite spans tail)
    · rwa [hsame]
    · rw [hslash]
      exact fun _ => hasSlash_slash a

theorem areApart_closeSpans (tail : List Char) (h : AreApart spans) :
    AreApart (closeSpans tail spans) := by
  induction spans with
  | nil => exact .nil
  | cons a spans ih =>
    obtain ⟨hhead, hspans⟩ := List.isChain_cons.mp h
    refine List.isChain_cons.mpr ⟨fun b hb => ?_, ih hspans⟩
    refine joins_eq_false (headsAlike_closeSpans tail spans) hb fun name hname d hd => ?_
    have hmem : name ∈ voids isApart a := by
      obtain ⟨hsame, -⟩ | ⟨hslash, -⟩ := closeSpan_cases a (unite spans tail)
      · rwa [hsame] at hname
      · rw [hslash] at hname
        exact voids_slash hname
    exact Bool.eq_false_iff.mpr (List.any_eq_false.mp (hhead d hd) name hmem)

theorem closeSpans_eq_self (h : AreClosed tail spans) : closeSpans tail spans = spans := by
  induction spans with
  | nil => rfl
  | cons a spans ih =>
    obtain ⟨ha, hspans⟩ := h
    rw [closeSpans, ih hspans, closeSpan, if_neg]
    intro hopen
    simp only [Bool.and_eq_true, Bool.not_eq_true'] at hopen
    rw [ha hopen.1] at hopen
    cases hopen.2

-- ---------------------------------------------------------------------------
-- Tags are opened once

/-- A span is kept, or it becomes two spans that are kept and have no void start tags. -/
def OpensOnce (a : List Char) : Prop :=
  openSpan a = [a] ∨ ∃ b c, openSpan a = [b, c] ∧ StartAlike a b ∧
    ∀ d ∈ [b, c], openSpan d = [d] ∧ voids isApart d = []

theorem headsAlike_openSpans (h : ∀ a ∈ spans, OpensOnce a) :
    HeadsAlike spans (spans.flatMap openSpan) := by
  cases spans with
  | nil => exact .nil
  | cons a spans =>
    rw [List.flatMap_cons]
    obtain hsame | ⟨b, c, hopen, hstart, -⟩ := h a List.mem_cons_self
    · rw [hsame]
      exact .cons _ _ (.inl rfl)
    · rw [hopen]
      exact .cons _ _ hstart

theorem joins_of_voids_nil (h : voids isApart a = []) (b : List Char) : joins a b = false := by
  rw [joins, h]
  rfl

theorem isLone_of_voids_nil (h : voids isApart a = []) (y : List Char) : isLone a y = false := by
  rw [isLone, h]
  rfl

theorem areApart_openSpans (h : ∀ a ∈ spans, OpensOnce a) (hapart : AreApart spans) :
    AreApart (spans.flatMap openSpan) := by
  induction spans with
  | nil => exact .nil
  | cons a spans ih =>
    obtain ⟨ha, hspans⟩ := List.forall_mem_cons.mp h
    obtain ⟨hhead, hrest⟩ := List.isChain_cons.mp hapart
    have hbehind := ih hspans hrest
    rw [List.flatMap_cons]
    obtain hsame | ⟨b, c, hopen, -, hkept⟩ := ha
    · rw [hsame]
      refine List.isChain_cons.mpr ⟨fun b hb => ?_, hbehind⟩
      refine joins_eq_false (headsAlike_openSpans hspans) hb fun name hname d hd => ?_
      exact Bool.eq_false_iff.mpr (List.any_eq_false.mp (hhead d hd) name hname)
    · obtain ⟨hb, hc⟩ := List.forall_mem_cons.mp hkept
      rw [hopen]
      refine List.isChain_cons.mpr ⟨fun d _ => joins_of_voids_nil hb.2 d, ?_⟩
      exact List.isChain_cons.mpr
        ⟨fun d _ => joins_of_voids_nil (hc c List.mem_cons_self).2 d, hbehind⟩

theorem areClosed_openSpans (h : ∀ a ∈ spans, OpensOnce a) (hclosed : AreClosed tail spans) :
    AreClosed tail (spans.flatMap openSpan) := by
  induction spans with
  | nil => trivial
  | cons a spans ih =>
    obtain ⟨ha, hspans⟩ := List.forall_mem_cons.mp h
    obtain ⟨hlone, hrest⟩ := hclosed
    have hbehind := ih hspans hrest
    rw [List.flatMap_cons]
    obtain hsame | ⟨b, c, hopen, -, hkept⟩ := ha
    · rw [hsame, List.singleton_append]
      refine ⟨?_, hbehind⟩
      rwa [← isLone_alike (headsAlike_openSpans hspans)]
    · obtain ⟨hb, hc⟩ := List.forall_mem_cons.mp hkept
      rw [hopen]
      refine ⟨fun hlone => ?_, fun hlone => ?_, hbehind⟩
      · rw [isLone_of_voids_nil hb.2] at hlone
        cases hlone
      · rw [isLone_of_voids_nil (hc c List.mem_cons_self).2] at hlone
        cases hlone

theorem openSpans_openSpans (h : ∀ a ∈ spans, OpensOnce a) :
    (spans.flatMap openSpan).flatMap openSpan = spans.flatMap openSpan := by
  induction spans with
  | nil => rfl
  | cons a spans ih =>
    obtain ⟨ha, hspans⟩ := List.forall_mem_cons.mp h
    rw [List.flatMap_cons, List.flatMap_append, ih hspans]
    obtain hsame | ⟨b, c, hopen, -, hkept⟩ := ha
    · rw [hsame, List.flatMap_singleton, hsame]
    · obtain ⟨hb, hc⟩ := List.forall_mem_cons.mp hkept
      rw [hopen]
      simp [hb.1, (hc c List.mem_cons_self).1]

-- ---------------------------------------------------------------------------
-- Spans whose tags are opened once

/-- A tag of an element that is not void, or nearly one. -/
def isOtherTag : List Char → Bool
  | '<' :: c :: s =>
    c.isAlpha && !isVoid (c :: s.takeWhile isNameChar) && isNearlyApart (s.dropWhile isNameChar)
  | _ => false

/-- A start tag of a void element, in ASCII letters. -/
def isVoidTag : List Char → Bool
  | '<' :: c :: s =>
    c.isAlpha && isVoid (c :: s.takeWhile isNameChar) && isApart (s.dropWhile isNameChar)
  | _ => false

/-- If there is a tag of another element in a span, one of a void element stands before it. -/
def isVoidFirst : List Char → Bool
  | [] => true
  | c :: s => isVoidTag (c :: s) || (!isOtherTag (c :: s) && isVoidFirst s)

/-- A span whose void start tags come first, or that has none and no second slash at its end. -/
def isSteady (a : List Char) : Bool :=
  if (voids isNearlyApart a).isEmpty then
    a.tails.all fun s => (closedTag? s).all fun tag => (beforeSlash tag.2).getLast? != some '/'
  else isVoidFirst a

theorem openSpan_cases (a : List Char) : openSpan a = [a] ∨ ∃ before name inner,
    a = before ++ '<' :: (name ++ inner) ∧ IsPlainName name ∧ inner.getLast? = some '/' ∧
      isApart inner.dropLast = true ∧ isVoid name = false ∧
      (∀ shorter longer tag, a = shorter ++ longer → closedTag? longer = some tag →
        before.length ≤ shorter.length) ∧
      openSpan a = [before ++ '<' :: (name ++ beforeSlash inner), '<' :: '/' :: name] := by
  rw [openSpan]
  cases hcut : Text.cutAt closedTag? a with
  | none => exact .inl rfl
  | some found =>
    obtain ⟨before, name, inner⟩ := found
    obtain ⟨s, rfl, htag, hfirst⟩ := Text.cutAt_eq_some_iff.mp hcut
    obtain ⟨rfl, hname, hslash, hapart⟩ := closedTag?_iff.mp htag
    dsimp only
    split
    · exact .inl rfl
    · rename_i hvoid
      exact .inr ⟨before, name, inner, rfl, hname, hslash, hapart, Bool.eq_false_iff.mpr hvoid,
        hfirst, rfl⟩

theorem openSpan_of_getLast? (h : a.getLast? ≠ some '/') : openSpan a = [a] := by
  obtain hsame | ⟨before, name, inner, rfl, -, hslash, -⟩ := openSpan_cases a
  · exact hsame
  · refine absurd ?_ h
    simp [List.getLast?_append, List.getLast?_cons, hslash]

theorem IsPlainName.letters (h : IsPlainName name) : ∀ d ∈ name, isNameChar d = true := by
  obtain ⟨c, more, rfl, hc, hmore⟩ := h
  refine List.forall_mem_cons.mpr ⟨?_, hmore⟩
  simp [isNameChar, Char.isAlphanum, hc]

theorem IsPlainName.tight (h : IsPlainName name) :
    name ≠ [] ∧ ∀ c ∈ name, isLoose c = false := by
  refine ⟨?_, fun c hc => isLoose_of_isNameChar (h.letters c hc)⟩
  obtain ⟨c, more, rfl, -⟩ := h
  exact List.cons_ne_nil c more

theorem of_isVoidTag {s : List Char} (h : isVoidTag s = true) : ∃ c more, s = '<' :: c :: more ∧
    c.isAlpha = true ∧ isVoid (c :: more.takeWhile isNameChar) = true ∧
      isApart (more.dropWhile isNameChar) = true := by
  unfold isVoidTag at h
  split at h
  · rename_i c more
    simp only [Bool.and_eq_true] at h
    exact ⟨c, more, rfl, h.1.1, h.1.2, h.2⟩
  · cases h

theorem exists_voidTag {before s : List Char} (h : isVoidFirst (before ++ s) = true)
    (hs : isOtherTag s = true) :
    ∃ p q, before = p ++ q ∧ q ≠ [] ∧ isVoidTag (q ++ s) = true := by
  induction before with
  | nil =>
    cases s with
    | nil => cases hs
    | cons c s =>
      rw [List.nil_append, isVoidFirst, hs, Bool.not_true, Bool.false_and, Bool.or_false] at h
      obtain ⟨d, more, he, hd, hvoid, -⟩ := of_isVoidTag h
      rw [he, isOtherTag, hvoid, hd] at hs
      cases hs
  | cons c before ih =>
    rw [List.cons_append, isVoidFirst, Bool.or_eq_true, Bool.and_eq_true] at h
    rcases h with h | ⟨-, h⟩
    · exact ⟨[], c :: before, rfl, List.cons_ne_nil c before, h⟩
    · obtain ⟨p, q, rfl, hq, htag⟩ := ih h
      exact ⟨c :: p, q, rfl, hq, htag⟩

/-- A void start tag that another tag stands in has a slash where that one has. -/
theorem closedTag?_of_isVoidTag {q s t : List Char} (hq : q ≠ [])
    (h : isVoidTag (q ++ '<' :: s) = true) (ht : t.getLast? = some '/') :
    ∃ tag, closedTag? (q ++ '<' :: t) = some tag := by
  obtain ⟨c, more, he, hc, hvoid, hapart⟩ := of_isVoidTag h
  have hstop : isNameChar '<' = false := rfl
  match q with
  | [d] =>
    obtain rfl := (List.cons.inj (List.cons.inj he).2).1
    cases hc
  | d :: e :: q =>
    obtain ⟨rfl, htail⟩ := List.cons.inj he
    obtain ⟨rfl, rfl⟩ := List.cons.inj htail
    change isApart ((q ++ '<' :: s).dropWhile isNameChar) = true at hapart
    rw [Text.dropWhile_append_cons hstop] at hapart
    refine ⟨(e :: q.takeWhile isNameChar, q.dropWhile isNameChar ++ '<' :: t), ?_⟩
    have hslash : (q.dropWhile isNameChar ++ '<' :: t).getLast? = some '/' := by
      simp [List.getLast?_append, List.getLast?_cons, ht]
    have hheld : isApart (q.dropWhile isNameChar ++ '<' :: t).dropLast = true := by
      cases hbehind : q.dropWhile isNameChar with
      | nil =>
        rw [hbehind] at hapart
        cases hapart
      | cons g w =>
        rw [hbehind] at hapart
        rw [List.dropLast_append_of_ne_nil (List.cons_ne_nil '<' t)]
        exact hapart
    simp only [closedTag?, List.cons_append, hc, Text.takeWhile_append_cons hstop,
      Text.dropWhile_append_cons hstop, hslash, hheld, and_self, if_true]

theorem openSpan_of_isVoidFirst (hz : ∀ c ∈ z, isLoose c = true) (hy : ∀ c ∈ y, isLoose c = true)
    (h : isVoidFirst (core ++ z) = true) : openSpan (core ++ y) = [core ++ y] := by
  obtain hsame | ⟨before, name, inner, he, hname, hslash, hapart, hvoid, hfirst, -⟩ :=
    openSpan_cases (core ++ y)
  · exact hsame
  · obtain ⟨rest, rfl, rfl⟩ := exists_tag_of_append hy hname.tight he
    have hnearly := isNearlyApart_of_closed hz hslash hapart
    have hother : isOtherTag ('<' :: (name ++ (rest ++ z))) = true := by
      obtain ⟨c, more, rfl, hc, hmore⟩ := hname
      obtain ⟨htake, hdrop⟩ := takeWhile_nearlyApart hmore hnearly
      simp [isOtherTag, hc, htake, hdrop, hvoid, hnearly]
    have hvoidFirst : isVoidFirst (before ++ '<' :: (name ++ (rest ++ z))) = true := by
      simpa using h
    obtain ⟨p, q, rfl, hq, htag⟩ := exists_voidTag hvoidFirst hother
    have hlast : (name ++ (rest ++ y)).getLast? = some '/' := by
      rw [List.getLast?_append, hslash]
      rfl
    obtain ⟨tag, hclosed⟩ := closedTag?_of_isVoidTag hq htag hlast
    have hle := hfirst p _ tag (by rw [he, List.append_assoc]) hclosed
    have hpos := List.length_pos_iff.mpr hq
    simp only [List.length_append] at hle
    omega

theorem IsPlainName.getLast? (h : IsPlainName name) (s : List Char) :
    (s ++ name).getLast? ≠ some '/' := by
  obtain ⟨hne, htight⟩ := h.tight
  intro hlast
  rw [List.getLast?_append_of_ne_nil _ hne] at hlast
  cases htight '/' (List.mem_of_getLast? hlast)

theorem voids_endTag (hname : IsPlainName name) : voids isApart ('<' :: '/' :: name) = [] := by
  refine List.eq_nil_iff_forall_not_mem.mpr fun found hfound => ?_
  obtain ⟨before, inner, he, hvoid, -⟩ := mem_voids_isApart.mp hfound
  obtain ⟨hne, htight⟩ := hvoid.tight
  cases before with
  | nil =>
    obtain ⟨d, rest, rfl⟩ := List.exists_cons_of_ne_nil hne
    obtain rfl := (List.cons.inj (List.cons.inj he).2).1
    cases htight '/' List.mem_cons_self
  | cons c before =>
    have hmem : '<' ∈ '/' :: name := (List.cons.inj he).2 ▸ by simp
    rcases List.mem_cons.mp hmem with he | hmem
    · cases he
    · cases hname.letters '<' hmem

theorem opensOnce_of_isSteady (h : isSteady a = true) : OpensOnce a := by
  rw [isSteady] at h
  split at h
  · rename_i hempty
    have hnone : voids isNearlyApart a = [] := List.isEmpty_iff.mp hempty
    obtain hsame | ⟨before, name, inner, rfl, hname, hslash, hapart, -, -, hopen⟩ := openSpan_cases a
    · exact .inl hsame
    · have hsingle : (beforeSlash inner).getLast? ≠ some '/' := by
        have htag := closedTag?_iff.mpr ⟨rfl, hname, hslash, hapart⟩
        have hall := List.all_eq_true.mp h _
          ((List.mem_tails _ _).mpr (List.suffix_append before _))
        rw [htag] at hall
        simpa using hall
      refine .inr ⟨_, _, hopen, ?_, List.forall_mem_cons.mpr ⟨⟨?_, ?_⟩, ?_⟩⟩
      · obtain ⟨c, more, rfl, hc, -⟩ := hname
        refine .inr ⟨before, c, more ++ inner, more ++ beforeSlash inner, ?_, rfl, rfl⟩
        rintro rfl
        cases hc
      · refine openSpan_of_getLast? ?_
        cases hheld : beforeSlash inner with
        | nil => simpa using hname.getLast? (before ++ ['<'])
        | cons c held =>
          rw [hheld] at hsingle
          simpa [List.getLast?_append, List.getLast?_cons] using hsingle
      · obtain ⟨z, hz, hloose⟩ := exists_beforeSlash hslash
        refine List.eq_nil_iff_forall_not_mem.mpr fun found hfound => ?_
        have hmem := voids_append hloose hfound
        have hback : before ++ '<' :: (name ++ beforeSlash inner) ++ z =
            before ++ '<' :: (name ++ inner) := by
          rw [List.append_assoc, List.cons_append, List.append_assoc, ← hz]
        rw [hback, hnone] at hmem
        cases hmem
      · refine List.forall_mem_singleton.mpr ⟨openSpan_of_getLast? ?_, voids_endTag hname⟩
        exact hname.getLast? ['<', '/']
  · left
    have hkept : openSpan (a ++ []) = [a ++ []] :=
      openSpan_of_isVoidFirst (z := []) nofun nofun (by rwa [List.append_nil])
    rwa [List.append_nil] at hkept

theorem opensOnce_of_void (h : isSteady (core ++ z) = true)
    (hname : name ∈ voids isNearlyApart (core ++ z)) (hz : ∀ c ∈ z, isLoose c = true)
    (hy : ∀ c ∈ y, isLoose c = true) : OpensOnce (core ++ y) := by
  rw [isSteady, if_neg fun hempty => by rw [List.isEmpty_iff.mp hempty] at hname; cases hname] at h
  exact .inl (openSpan_of_isVoidFirst hz hy h)

theorem mem_joinSpans {d : List Char} (h : d ∈ joinSpans spans) :
    ∃ a ∈ spans, d = a ∨ d = bare a ++ [' ', '/'] ∧ ∃ name, name ∈ voids isApart a := by
  induction spans using joinSpans.induct with
  | case1 a b spans hjoins ih =>
    rw [joinSpans, if_pos hjoins] at h
    rcases List.mem_cons.mp h with rfl | h
    · obtain ⟨name, hname, -⟩ := exists_mem_of_joins hjoins
      exact ⟨a, List.mem_cons_self, .inr ⟨rfl, name, hname⟩⟩
    · obtain ⟨e, he, hd⟩ := ih h
      exact ⟨e, List.mem_cons_of_mem _ (List.mem_cons_of_mem _ he), hd⟩
  | case2 a b spans hjoins ih =>
    rw [joinSpans, if_neg hjoins] at h
    rcases List.mem_cons.mp h with rfl | h
    · exact ⟨d, List.mem_cons_self, .inl rfl⟩
    · obtain ⟨e, he, hd⟩ := ih h
      exact ⟨e, List.mem_cons_of_mem _ he, hd⟩
  | case3 spans hshort =>
    rw [joinSpans] at h
    · exact ⟨d, h, .inl rfl⟩
    · exact hshort

theorem mem_closeSpans {c : List Char} (h : c ∈ closeSpans tail spans) :
    ∃ d ∈ spans, c = d ∨ c = d ++ [' ', '/'] ∧ ∃ name, name ∈ voids isApart d := by
  induction spans with
  | nil => cases h
  | cons d spans ih =>
    rcases List.mem_cons.mp h with rfl | h
    · refine ⟨d, List.mem_cons_self, ?_⟩
      obtain ⟨hsame, -⟩ | hslash := closeSpan_cases d (unite spans tail)
      · exact .inl hsame
      · exact .inr hslash
    · obtain ⟨e, he, hc⟩ := ih h
      exact ⟨e, List.mem_cons_of_mem _ he, hc⟩

theorem opensOnce_closeSpans (h : ∀ a ∈ spans, isSteady a = true) :
    ∀ c ∈ closeSpans tail (joinSpans spans), OpensOnce c := by
  have hslash : ∀ c ∈ [' ', '/'], isLoose c = true := by decide
  intro c hc
  obtain ⟨d, hd, hc⟩ := mem_closeSpans hc
  obtain ⟨a, ha, hd⟩ := mem_joinSpans hd
  have hsteady := h a ha
  rcases hd with rfl | ⟨rfl, name, hname⟩
  · rcases hc with rfl | ⟨rfl, name, hname⟩
    · exact opensOnce_of_isSteady hsteady
    · exact opensOnce_of_void (z := []) (by rwa [List.append_nil]) (voids_append nofun hname) nofun
        hslash
  · obtain ⟨z, hbare, hz⟩ := exists_bare a
    have hvoid : name ∈ voids isNearlyApart (bare a ++ z) := by
      have hnear := voids_append (z := []) nofun hname
      rwa [List.append_nil, hbare] at hnear
    rw [hbare] at hsteady
    rcases hc with rfl | ⟨rfl, -⟩
    · exact opensOnce_of_void hsteady hvoid hz hslash
    · rw [List.append_assoc]
      exact opensOnce_of_void hsteady hvoid hz (by decide)

-- ---------------------------------------------------------------------------
-- Once is enough

theorem areSpans_joinSpans (h : AreSpans spans) : AreSpans (joinSpans spans) := by
  intro d hd
  obtain ⟨a, ha, rfl | ⟨rfl, -⟩⟩ := mem_joinSpans hd
  · exact h d ha
  · obtain ⟨z, hbare, -⟩ := exists_bare a
    have hclose : '>' ∉ bare a := fun hm => h a ha (hbare ▸ List.mem_append_left _ hm)
    simp [hclose]

theorem areSpans_closeSpans (h : AreSpans spans) : AreSpans (closeSpans tail spans) := by
  intro c hc
  obtain ⟨d, hd, rfl | ⟨rfl, -⟩⟩ := mem_closeSpans hc
  · exact h c hd
  · simp [h d hd]

theorem areSpans_openSpans (h : AreSpans spans) : AreSpans (spans.flatMap openSpan) := by
  intro c hc
  obtain ⟨a, ha, hc⟩ := List.mem_flatMap.mp hc
  have hclose := h a ha
  obtain hsame | ⟨before, name, inner, rfl, -, hslash, -, -, -, hopen⟩ := openSpan_cases a
  · rw [hsame, List.mem_singleton] at hc
    exact hc ▸ hclose
  · obtain ⟨z, hz, -⟩ := exists_beforeSlash hslash
    have hparts : '>' ∉ before ∧ '>' ∉ name ∧ '>' ∉ inner := by simpa using hclose
    have hheld : '>' ∉ beforeSlash inner := fun hm =>
      hparts.2.2 (hz ▸ List.mem_append_left _ hm)
    rw [hopen] at hc
    rcases List.mem_cons.mp hc with rfl | hc
    · simp [hparts, hheld]
    · obtain rfl := List.mem_singleton.mp hc
      simp [hparts]

/-- The spans of a canonical document. -/
def canonicalSpans (tail : List Char) (spans : List (List Char)) : List (List Char) :=
  (closeSpans tail (joinSpans spans)).flatMap openSpan

theorem areSpans_canonicalSpans (h : AreSpans spans) : AreSpans (canonicalSpans tail spans) :=
  areSpans_openSpans (areSpans_closeSpans (areSpans_joinSpans h))

theorem canonicalize_unite (h : AreSpans spans) (htail : '>' ∉ tail) :
    canonicalize (String.ofList (unite spans tail)) =
      String.ofList (unite (canonicalSpans tail spans) tail) := by
  have hjoined := areSpans_joinSpans h
  rw [canonicalize, String.toList_ofList, joinPaired_unite h htail, closeLone_unite hjoined htail,
    openClosed_unite (areSpans_closeSpans hjoined) htail, canonicalSpans]

theorem canonicalSpans_canonicalSpans (hsteady : ∀ a ∈ spans, isSteady a = true)
    (honce : endsOnce spans = true) :
    canonicalSpans tail (canonicalSpans tail spans) = canonicalSpans tail spans := by
  have honly : ∀ c ∈ closeSpans tail (joinSpans spans), OpensOnce c :=
    opensOnce_closeSpans hsteady
  have hapart := areApart_openSpans honly
    (areApart_closeSpans tail (areApart_joinSpans honce))
  have hlone := areClosed_openSpans honly (areClosed_closeSpans tail _)
  rw [canonicalSpans, canonicalSpans, joinSpans_eq_self hapart, closeSpans_eq_self hlone,
    openSpans_openSpans honly]

/-- A document is canonical after one pass, unless another end tag follows a pair of void tags, a tag
of another element comes before a void start tag with the same end, or a tag ends in two slashes. -/
theorem canonicalize_canonicalize {text : String}
    (hsteady : ∀ a ∈ spansOf text.toList, isSteady a = true)
    (honce : endsOnce (spansOf text.toList) = true) :
    canonicalize (canonicalize text) = canonicalize text := by
  obtain ⟨tail, hs, hspans, htail⟩ := exists_spans text.toList
  have hfirst := canonicalize_unite hspans htail
  rw [← hs, String.ofList_toList] at hfirst
  rw [hfirst, canonicalize_unite (areSpans_canonicalSpans hspans) htail,
    canonicalSpans_canonicalSpans hsteady honce]

theorem canonicalize_canonicalize_paired :
    canonicalize "<td/><br></br ><hr <td /></br>" = "<td></td><br /><hr <td /></br>" ∧
      canonicalize "<td></td><br /><hr <td /></br>" = "<td></td><br /><hr <td /></br>" := by
  have hfirst : canonicalize "<td/><br></br ><hr <td /></br>" =
      "<td></td><br /><hr <td /></br>" := by
    have hspans : AreSpans
        ["<td/".toList, "<br".toList, "</br ".toList, "<hr <td /".toList, "</br".toList] := by
      unfold AreSpans
      decide
    exact (canonicalize_unite hspans (List.not_mem_nil)).trans (by decide +kernel)
  have hagain : canonicalize (canonicalize "<td/><br></br ><hr <td /></br>") =
      canonicalize "<td/><br></br ><hr <td /></br>" :=
    canonicalize_canonicalize (by decide +kernel) (by decide +kernel)
  rw [hfirst] at hagain
  exact ⟨hfirst, hagain⟩

/-- A pair may have more than one end tag behind it. -/
theorem not_canonicalize_canonicalize :
    ¬ ∀ text, canonicalize (canonicalize text) = canonicalize text := by
  intro h
  have hspans (spans : List (List Char)) (hclose : AreSpans spans) :=
    canonicalize_unite hclose (List.not_mem_nil (a := '>'))
  have hfirst : canonicalize "<br></br></br>" = "<br /></br>" :=
    (hspans ["<br".toList, "</br".toList, "</br".toList] (by unfold AreSpans; decide)).trans
      (by decide +kernel)
  have hagain : canonicalize "<br /></br>" = "<br />" :=
    (hspans ["<br /".toList, "</br".toList] (by unfold AreSpans; decide)).trans
      (by decide +kernel)
  have hsame := h "<br></br></br>"
  rw [hfirst, hagain] at hsame
  exact absurd hsame (by decide)

end Mailgrid.VoidElement
