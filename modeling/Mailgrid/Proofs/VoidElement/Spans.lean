import Mailgrid.Proofs.Markup.Constructs
import Mailgrid.Proofs.VoidElement.Names
import Mailgrid.Proofs.VoidElement.Passages
import Mailgrid.Text.Split

/-!
# Texts cut at the ends of their tags

A tag reaches to the first `>`, so no tag reaches over one. A text is cut here at
each `>`; the tags that are looked for start within one of the spans between,
and all that is looked for behind them is an end tag at the start of the next
one. So each of the three changes goes from span to span.
-/

namespace Mailgrid.VoidElement

open Mailgrid.Markup (isLoose)
open Mailgrid.Text (isBlank skipBlanks trimEnd cutAtChar lowerString foldKey isLike spelling?
  afterFolded? splitParts)

variable {a b s t x y z inner name tail : List Char} {spans : List (List Char)}

-- ---------------------------------------------------------------------------
-- Spans

/-- The text of spans, with a `>` behind each, and of what stands behind the last one. -/
def unite (spans : List (List Char)) (tail : List Char) : List Char :=
  spans.flatMap (· ++ ['>']) ++ tail

@[simp] theorem unite_nil (tail : List Char) : unite [] tail = tail := rfl

@[simp] theorem unite_cons (a : List Char) (spans : List (List Char)) (tail : List Char) :
    unite (a :: spans) tail = a ++ '>' :: unite spans tail := by
  simp [unite]

/-- The spans of a text that a `>` ends. -/
def spansOf (s : List Char) : List (List Char) :=
  (splitParts '>' s).dropLast

/-- No span has a `>` of its own. -/
def AreSpans (spans : List (List Char)) : Prop :=
  ∀ a ∈ spans, '>' ∉ a

theorem exists_spans (s : List Char) :
    ∃ tail, s = unite (spansOf s) tail ∧ AreSpans (spansOf s) ∧ '>' ∉ tail := by
  have hparts : ∃ tail, splitParts '>' s = spansOf s ++ [tail] ∧
      ∀ a ∈ splitParts '>' s, '>' ∉ a := by
    refine ⟨_, (List.dropLast_append_getLast (Text.splitParts_ne_nil '>' s)).symm, ?_⟩
    induction s with
    | nil => simp [splitParts]
    | cons c s ih =>
      rw [splitParts]
      split
      · exact List.forall_mem_cons.mpr ⟨List.not_mem_nil, ih⟩
      · rename_i hc
        split
        · simpa using Ne.symm hc
        · rename_i part parts hs
          rw [hs] at ih
          obtain ⟨hpart, hrest⟩ := List.forall_mem_cons.mp ih
          exact List.forall_mem_cons.mpr ⟨by simp [Ne.symm hc, hpart], hrest⟩
  have hjoined (spans : List (List Char)) (tail : List Char) :
      Text.joinParts '>' (spans ++ [tail]) = unite spans tail := by
    induction spans with
    | nil => rfl
    | cons a spans ih =>
      rw [unite_cons, ← ih]
      cases spans <;> rfl
  obtain ⟨tail, hsplit, hclean⟩ := hparts
  refine ⟨tail, ?_, fun a ha => hclean a ?_, hclean tail ?_⟩
  · rw [← hjoined, ← hsplit, Text.joinParts_splitParts]
  · rw [hsplit]
    exact List.mem_append_left _ ha
  · rw [hsplit]
    exact List.mem_append_right _ List.mem_cons_self

-- ---------------------------------------------------------------------------
-- Void start tags and end tags in spans

/-- Nothing, or what starts with a blank, or nothing but blanks and slashes. -/
def isNearlyApart (inner : List Char) : Bool :=
  isApart inner || inner.all isLoose

theorem isNearlyApart_of_isApart (h : isApart inner = true) : isNearlyApart inner = true := by
  rw [isNearlyApart, h, Bool.true_or]

theorem isNearlyApart_append (hz : ∀ c ∈ z, isLoose c = true) (h : isApart inner = true) :
    isNearlyApart (inner ++ z) = true := by
  cases inner with
  | nil =>
    have hall : z.all isLoose = true := List.all_eq_true.mpr hz
    rw [List.nil_append, isNearlyApart, hall, Bool.or_true]
  | cons c inner => exact isNearlyApart_of_isApart h

theorem endsName_of_isNearlyApart (h : isNearlyApart inner = true) : EndsName inner := by
  intro c hc
  cases inner with
  | nil => cases hc
  | cons d inner =>
    cases hc
    have hloose : isLoose c = true := by
      simp only [isNearlyApart, isApart, List.all_cons, Bool.or_eq_true, Bool.and_eq_true] at h
      rcases h with h | ⟨h, -⟩
      · rw [isLoose, h, Bool.true_or]
      · exact h
    rw [isForeign, hloose, Bool.true_or, Bool.true_or]

/-- The void start tag that a part of a span is, if what it holds fits. -/
def voidTag? (fit : List Char → Bool) : List Char → Option (List Char × List Char)
  | '<' :: s =>
    match spelledName? s with
    | some (name, inner) => if fit inner then some (name, inner) else none
    | none => none
  | _ => none

/-- The names of the void start tags in a span, from left to right. -/
def voids (fit : List Char → Bool) (span : List Char) : List (List Char) :=
  (span.tails.filterMap (voidTag? fit)).map (·.1)

section
variable {fit : List Char → Bool} (hfit : ∀ inner, fit inner = true → isNearlyApart inner = true)
include hfit

theorem voidTag?_iff : voidTag? fit s = some (name, inner) ↔
    s = '<' :: (name ++ inner) ∧ IsVoidName name ∧ fit inner = true := by
  constructor
  · intro h
    unfold voidTag? at h
    split at h
    · split at h
      · rename_i hname
        split at h
        · rename_i hinner
          cases h
          obtain rfl := (of_spelledName? hname).1
          exact ⟨rfl, (spelledName?_iff (endsName_of_isNearlyApart (hfit _ hinner))).mp hname,
            hinner⟩
        · cases h
      · cases h
    · cases h
  · rintro ⟨rfl, hname, hinner⟩
    have hends := endsName_of_isNearlyApart (hfit inner hinner)
    simp only [voidTag?, (spelledName?_iff hends).mpr hname, hinner, if_true]

theorem mem_voids_iff : name ∈ voids fit a ↔ ∃ before inner,
    a = before ++ '<' :: (name ++ inner) ∧ IsVoidName name ∧ fit inner = true := by
  simp only [voids, List.mem_map, List.mem_filterMap, List.mem_tails]
  constructor
  · rintro ⟨⟨name, inner⟩, ⟨s, ⟨before, rfl⟩, hs⟩, rfl⟩
    obtain ⟨rfl, hname, hinner⟩ := (voidTag?_iff hfit).mp hs
    exact ⟨before, inner, rfl, hname, hinner⟩
  · rintro ⟨before, inner, rfl, hname, hinner⟩
    exact ⟨(name, inner), ⟨_, List.suffix_append before _,
      (voidTag?_iff hfit).mpr ⟨rfl, hname, hinner⟩⟩, rfl⟩

end

theorem startTag?_span (hs : '>' ∉ s) (y : List Char) :
    startTag? (s ++ '>' :: y) =
      (voidTag? isApart s).map fun (name, inner) => ⟨name, inner, y⟩ := by
  cases s with
  | nil => rfl
  | cons c s =>
    by_cases hc : c = '<'
    · subst hc
      have hends : EndsName ('>' :: y) := by
        rintro _ ⟨⟩
        rfl
      simp only [List.cons_append, startTag?, voidTag?, spelledName?_endsName hends]
      cases hname : spelledName? s with
      | none => rfl
      | some found =>
        obtain ⟨name, inner⟩ := found
        obtain rfl := (of_spelledName? hname).1
        have hinner : '>' ∉ inner := fun hm => hs (by simp [hm])
        simp only [Option.map_some, Text.cutAtChar_append hinner]
        split <;> rfl
    · simp [startTag?, voidTag?, hc]

/-- Is a span the end tag of a name? -/
def isEndTag (name span : List Char) : Bool :=
  match afterEndName? name span with
  | some more => (skipBlanks more).isEmpty
  | none => false

theorem afterFolded?_foreign {c : Char} (hc : ∀ w ∈ name, foldKey w ≠ foldKey c) (s y : List Char) :
    afterFolded? name (s ++ c :: y) = (afterFolded? name s).map (· ++ c :: y) := by
  induction name generalizing s with
  | nil => rfl
  | cons w name ih =>
    obtain ⟨hne, hname⟩ := List.forall_mem_cons.mp hc
    cases s with
    | nil => exact if_neg hne
    | cons d s =>
      simp only [List.cons_append, afterFolded?]
      split
      · exact ih hname s
      · rfl

theorem skipBlanks_foreign {c : Char} (hc : isBlank c = false) (s y : List Char) :
    skipBlanks (s ++ c :: y) = skipBlanks s ++ c :: y :=
  Text.dropWhile_append_cons hc s y

theorem afterEndName?_foreign {c : Char} (hname : IsVoidName name) (hc : isForeign c = true)
    (hblank : isBlank c = false) (hslash : c ≠ '/') (s : List Char)
    (hs : skipBlanks s ≠ []) (y : List Char) :
    afterEndName? name (s ++ c :: y) = (afterEndName? name s).map (· ++ c :: y) := by
  unfold afterEndName?
  rw [skipBlanks_foreign hblank]
  match hr : skipBlanks s with
  | [] => exact absurd hr hs
  | [d] =>
    by_cases hd : d = '<'
    · subst hd
      simp [hslash]
    · simp [hd]
  | d :: e :: rest =>
    by_cases hd : d = '<'
    · subst hd
      by_cases he : e = '/'
      · subst he
        exact afterFolded?_foreign (fun w hw => (hname.letters.2 w hw).2 c hc) rest y
      · simp [he]
    · simp [hd]

theorem afterEndName?_span (hname : IsVoidName name) (b y : List Char) :
    afterEndName? name (b ++ '>' :: y) = (afterEndName? name b).map (· ++ '>' :: y) := by
  by_cases hb : skipBlanks b = []
  · have hskip : skipBlanks (b ++ '>' :: y) = '>' :: y := by
      rw [skipBlanks_foreign rfl, hb]
      rfl
    simp [afterEndName?, hskip, hb]
  · exact afterEndName?_foreign hname rfl rfl (by decide) b hb y

theorem lone?_span (hs : '>' ∉ s) (spot : Spot) :
    lone? (s ++ '>' :: y) = some spot ↔
      ∃ name inner, voidTag? isApart s = some (name, inner) ∧
        afterEndName? name y = none ∧ spot = ⟨name, inner, y⟩ := by
  rw [lone?, startTag?_span hs]
  cases voidTag? isApart s with
  | none => simp
  | some tag =>
    obtain ⟨name, inner⟩ := tag
    cases hend : afterEndName? name y with
    | some more => simp [hend]
    | none =>
      simp [hend]
      exact eq_comm

theorem isVoidName_of_voidTag? (h : voidTag? isApart s = some (name, inner)) : IsVoidName name :=
  ((voidTag?_iff fun _ => isNearlyApart_of_isApart).mp h).2.1

theorem suffix_of_afterEndName? {more : List Char} (h : afterEndName? name s = some more) :
    more <:+ s := by
  unfold afterEndName? at h
  split at h
  · rename_i rest hrest
    have hskip : '<' :: '/' :: rest <:+ s := hrest ▸ List.dropWhile_suffix isBlank
    exact (Text.suffix_of_afterFolded? h).trans
      ((List.suffix_append ['<', '/'] rest).trans hskip)
  · cases h

/-- A pair is a void start tag in a span, with its end tag the next span. -/
theorem paired?_span (hs : '>' ∉ s) (hb : '>' ∉ b) (spot : Spot) :
    paired? (s ++ '>' :: (b ++ '>' :: y)) = some spot ↔
      ∃ name inner, voidTag? isApart s = some (name, inner) ∧ isEndTag name b = true ∧
        spot = ⟨name, inner, y⟩ := by
  rw [paired?, startTag?_span hs]
  cases htag : voidTag? isApart s with
  | none => simp
  | some tag =>
    obtain ⟨name, inner⟩ := tag
    have hname := isVoidName_of_voidTag? htag
    simp only [Option.map_some, afterEndName?_span hname]
    cases hmore : afterEndName? name b with
    | none => simp [isEndTag, hmore]
    | some more =>
      have hclose : '>' ∉ skipBlanks more := fun hm =>
        hb ((suffix_of_afterEndName? hmore).subset ((List.dropWhile_suffix isBlank).subset hm))
      simp only [Option.map_some, skipBlanks_foreign (c := '>') rfl]
      cases hskip : skipBlanks more with
      | nil =>
        have hend : isEndTag name b = true := by simp [isEndTag, hmore, hskip]
        simp [hend]
        exact eq_comm
      | cons c rest =>
        have hc : c ≠ '>' := fun he => hclose (by simp [hskip, he])
        simp [isEndTag, hmore, hskip, hc]

theorem paired?_tail (hs : '>' ∉ s) (htail : '>' ∉ tail) : paired? (s ++ '>' :: tail) = none := by
  cases hspot : paired? (s ++ '>' :: tail) with
  | none => rfl
  | some spot =>
    obtain ⟨found, hfound, -, -, behind, hbehind, hclose⟩ := startTag_of_paired? hspot
    rw [startTag?_span hs] at hfound
    obtain ⟨tag, -, rfl⟩ := Option.map_eq_some_iff.mp hfound
    have hmem : '>' ∈ skipBlanks behind := by simp [hclose]
    exact absurd ((suffix_of_afterEndName? hbehind).subset
      ((List.dropWhile_suffix isBlank).subset hmem)) htail

-- ---------------------------------------------------------------------------
-- Replacing in spans

theorem not_look_of_not_mem (hs : '>' ∉ s) : startTag? s = none ∧ closed? s = none := by
  constructor
  · cases h : startTag? s with
    | none => rfl
    | some spot =>
      have he := (parts_of_startTag? h).1
      exact absurd (by simp [he]) hs
  · cases h : closed? s with
    | none => rfl
    | some spot =>
      have he := (parts_of_closed? h).1
      exact absurd (by simp [he]) hs

section
variable {look : List Char → Option Spot}
  (shorter : ∀ {s : List Char} {spot : Spot}, look s = some spot → spot.rest.length < s.length)
  (write : Spot → List Char)

/-- In a span the first spot is replaced, or there is none. -/
theorem replaceSpots_span (a t : List Char) :
    ((∀ s, s <:+ a → s ≠ [] → look (s ++ t) = none) ∧
      replaceSpots look shorter write (a ++ t) = a ++ replaceSpots look shorter write t) ∨
    ∃ before s spot, a = before ++ s ∧ look (s ++ t) = some spot ∧
      (∀ u, u <:+ a → s.length < u.length → look (u ++ t) = none) ∧
      replaceSpots look shorter write (a ++ t) =
        before ++ (write spot ++ replaceSpots look shorter write spot.rest) := by
  induction a with
  | nil => exact .inl ⟨fun s hs hne => absurd (List.suffix_nil.mp hs) hne, rfl⟩
  | cons c a ih =>
    cases hspot : look (c :: (a ++ t)) with
    | some spot =>
      refine .inr ⟨[], c :: a, spot, rfl, hspot, fun u hu hlt => ?_, replaceSpots_of_some hspot⟩
      exact absurd hu.length_le (Nat.not_le.mpr hlt)
    | none =>
      have hkept : replaceSpots look shorter write (c :: (a ++ t)) =
          c :: replaceSpots look shorter write (a ++ t) := replaceSpots_of_none hspot
      obtain ⟨hnone, hsame⟩ | ⟨before, s, spot, rfl, hs, hfirst, hreplaced⟩ := ih
      · refine .inl ⟨fun s hs hne => ?_, by rw [List.cons_append, hkept, hsame]; rfl⟩
        rcases List.suffix_cons_iff.mp hs with rfl | hs
        · exact hspot
        · exact hnone s hs hne
      · refine .inr ⟨c :: before, s, spot, rfl, hs, fun u hu hlt => ?_,
          by rw [List.cons_append, hkept, hreplaced]; rfl⟩
        rcases List.suffix_cons_iff.mp hu with rfl | hu
        · exact hspot
        · exact hfirst u hu hlt

end

-- ---------------------------------------------------------------------------
-- Joining pairs

/-- A text without the blanks and slashes at its end, but for slashes before blanks before slashes. -/
def bare (s : List Char) : List Char :=
  trimEnd (dropSlashes (trimEnd s))

/-- Is the second span the end tag of a void start tag in the first one? -/
def joins (a b : List Char) : Bool :=
  (voids isApart a).any (isEndTag · b)

def joinSpans : List (List Char) → List (List Char)
  | a :: b :: spans =>
    if joins a b then (bare a ++ [' ', '/']) :: joinSpans spans else a :: joinSpans (b :: spans)
  | spans => spans

theorem trimEnd_append {c : Char} (hc : isBlank c = false) (s t : List Char) :
    trimEnd (s ++ c :: t) = s ++ c :: trimEnd t := by
  induction s with
  | nil =>
    rw [List.nil_append, trimEnd]
    split
    · rename_i hnil
      simp [hnil, hc]
    · rfl
  | cons d s ih =>
    rw [List.cons_append, trimEnd, ih]
    cases s <;> rfl

theorem dropSlashes_append {c : Char} (hc : c ≠ '/') (s t : List Char) :
    dropSlashes (s ++ c :: t) = s ++ c :: dropSlashes t := by
  have hstop : (c :: s.reverse).dropWhile (· == '/') = c :: s.reverse := by simp [hc]
  rw [dropSlashes, dropSlashes, List.reverse_append, List.reverse_cons, List.append_assoc,
    List.dropWhile_append, List.singleton_append]
  split
  · rename_i hempty
    rw [hstop, List.isEmpty_iff.mp hempty]
    simp
  · simp

theorem bare_append {c : Char} (hc : isLoose c = false) (s t : List Char) :
    bare (s ++ c :: t) = s ++ c :: bare t := by
  have hsplit : isBlank c = false ∧ c ≠ '/' := by
    simpa [isLoose] using hc
  rw [bare, trimEnd_append hsplit.1, dropSlashes_append hsplit.2, trimEnd_append hsplit.1, bare]

theorem IsVoidName.exists_last (h : IsVoidName name) :
    ∃ first c, name = first ++ [c] ∧ isLoose c = false := by
  obtain ⟨hne, hletters⟩ := h.letters
  refine ⟨_, _, (List.dropLast_append_getLast hne).symm, ?_⟩
  have hlast := (hletters _ (List.getLast_mem hne)).1
  simp only [isForeign, Bool.or_eq_false_iff] at hlast
  exact hlast.1.1

theorem bare_tag (h : IsVoidName name) (before inner : List Char) :
    bare (before ++ '<' :: (name ++ inner)) = before ++ '<' :: (name ++ bare inner) := by
  obtain ⟨first, c, rfl, hc⟩ := h.exists_last
  have happend := bare_append hc (before ++ '<' :: first) inner
  simpa using happend

theorem joinPaired_tail (htail : '>' ∉ tail) : joinPaired tail = tail := by
  refine replaceSpots_eq_self fun s spot hs hspot => ?_
  obtain ⟨found, hfound, -⟩ := startTag_of_paired? hspot
  rw [(not_look_of_not_mem fun hm => htail (hs.subset hm)).1] at hfound
  cases hfound

theorem joinPaired_close (y : List Char) : joinPaired ('>' :: y) = '>' :: joinPaired y :=
  replaceSpots_of_none rfl

theorem joins_iff : joins a b = true ↔
    ∃ s name inner, s <:+ a ∧ voidTag? isApart s = some (name, inner) ∧ isEndTag name b = true := by
  simp only [joins, voids, List.any_eq_true, List.mem_map, List.mem_filterMap, List.mem_tails]
  constructor
  · rintro ⟨_, ⟨⟨name, inner⟩, ⟨s, hs, htag⟩, rfl⟩, hend⟩
    exact ⟨s, name, inner, hs, htag, hend⟩
  · rintro ⟨s, name, inner, hs, htag, hend⟩
    exact ⟨name, ⟨(name, inner), ⟨s, hs, htag⟩, rfl⟩, hend⟩

theorem joinPaired_span (ha : '>' ∉ a) (hb : '>' ∉ b) (y : List Char) :
    joinPaired (a ++ '>' :: (b ++ '>' :: y)) =
      if joins a b then bare a ++ [' ', '/'] ++ '>' :: joinPaired y
      else a ++ '>' :: joinPaired (b ++ '>' :: y) := by
  have hpart {s : List Char} (hs : s <:+ a) {spot : Spot} :=
    paired?_span (y := y) (fun hm => ha (hs.subset hm)) hb spot
  obtain ⟨hnone, hsame⟩ | ⟨before, s, spot, rfl, hs, -, hreplaced⟩ :=
    replaceSpots_span rest_of_paired? writePaired a
      ('>' :: (b ++ '>' :: y))
  · have hjoins : ¬ joins a b = true := by
      intro hjoins
      obtain ⟨s, name, inner, hs, htag, hend⟩ := joins_iff.mp hjoins
      have hne : s ≠ [] := by
        rintro rfl
        cases htag
      cases (hnone s hs hne).symm.trans ((hpart hs).mpr ⟨name, inner, htag, hend, rfl⟩)
    rw [if_neg hjoins, ← joinPaired_close]
    exact hsame
  · obtain ⟨name, inner, htag, hend, rfl⟩ := (hpart (List.suffix_append before s)).mp hs
    rw [if_pos (joins_iff.mpr ⟨s, name, inner, List.suffix_append before s, htag, hend⟩)]
    obtain ⟨rfl, hname, -⟩ := (voidTag?_iff fun _ => isNearlyApart_of_isApart).mp htag
    refine hreplaced.trans ?_
    rw [bare_tag hname, writePaired, withSlash, ← bare]
    simp only [List.cons_append, List.append_assoc]
    rfl

theorem joinPaired_unite (hspans : AreSpans spans) (htail : '>' ∉ tail) :
    joinPaired (unite spans tail) = unite (joinSpans spans) tail := by
  induction spans using joinSpans.induct with
  | case1 a b spans hjoins ih =>
    obtain ⟨ha, hspans⟩ := List.forall_mem_cons.mp hspans
    obtain ⟨hb, hspans⟩ := List.forall_mem_cons.mp hspans
    rw [unite_cons, unite_cons, joinPaired_span ha hb, if_pos hjoins, ih hspans, joinSpans,
      if_pos hjoins, unite_cons]
  | case2 a b spans hjoins ih =>
    obtain ⟨ha, hspans⟩ := List.forall_mem_cons.mp hspans
    have hb := (List.forall_mem_cons.mp hspans).1
    rw [unite_cons, unite_cons, joinPaired_span ha hb, if_neg hjoins, ← unite_cons, ih hspans,
      joinSpans, if_neg hjoins, unite_cons]
  | case3 spans hshort =>
    match spans with
    | [] => exact joinPaired_tail htail
    | [a] =>
      have ha : '>' ∉ a := hspans a List.mem_cons_self
      obtain ⟨-, hsame⟩ | ⟨before, s, spot, rfl, hs, -, -⟩ :=
        replaceSpots_span rest_of_paired? writePaired a ('>' :: tail)
      · rw [unite_cons, unite_nil]
        refine hsame.trans ?_
        change a ++ joinPaired ('>' :: tail) = _
        rw [joinPaired_close, joinPaired_tail htail]
        simp [joinSpans]
      · rw [paired?_tail (fun hm => ha (List.mem_append_right _ hm)) htail] at hs
        cases hs
    | a :: b :: spans => exact absurd rfl (hshort a b spans)

-- ---------------------------------------------------------------------------
-- Closing what is alone

def hasSlash (a : List Char) : Bool :=
  (trimEnd a).getLast? == some '/'

/-- Does a void start tag start in a span that no end tag of its own follows in `y`? -/
def isLone (a y : List Char) : Bool :=
  (voids isApart a).any fun name => (afterEndName? name y).isNone

def closeSpan (a y : List Char) : List Char :=
  if isLone a y && !hasSlash a then a ++ [' ', '/'] else a

def closeSpans (tail : List Char) : List (List Char) → List (List Char)
  | [] => []
  | a :: spans => closeSpan a (unite spans tail) :: closeSpans tail spans

theorem isLone_iff : isLone a y = true ↔
    ∃ s name inner, s <:+ a ∧ voidTag? isApart s = some (name, inner) ∧
      afterEndName? name y = none := by
  simp only [isLone, voids, List.any_eq_true, List.mem_map, List.mem_filterMap, List.mem_tails,
    Option.isNone_iff_eq_none]
  constructor
  · rintro ⟨_, ⟨⟨name, inner⟩, ⟨s, hs, htag⟩, rfl⟩, hend⟩
    exact ⟨s, name, inner, hs, htag, hend⟩
  · rintro ⟨s, name, inner, hs, htag, hend⟩
    exact ⟨name, ⟨(name, inner), ⟨s, hs, htag⟩, rfl⟩, hend⟩

theorem hasSlash_tag (h : IsVoidName name) (before inner : List Char) :
    hasSlash (before ++ '<' :: (name ++ inner)) = true ↔ (trimEnd inner).getLast? = some '/' := by
  obtain ⟨first, c, rfl, hc⟩ := h.exists_last
  have hsplit : isBlank c = false ∧ c ≠ '/' := by
    simpa [isLoose] using hc
  have htrim : trimEnd (before ++ '<' :: (first ++ [c] ++ inner)) =
      before ++ '<' :: first ++ c :: trimEnd inner := by
    simpa using trimEnd_append hsplit.1 (before ++ '<' :: first) inner
  rw [hasSlash, htrim, beq_iff_eq, List.getLast?_append_cons]
  cases trimEnd inner with
  | nil => simp [hsplit.2]
  | cons d rest => rw [List.getLast?_cons_cons]

theorem closeLone_close (y : List Char) : closeLone ('>' :: y) = '>' :: closeLone y :=
  replaceSpots_of_none rfl

theorem closeLone_span (ha : '>' ∉ a) (y : List Char) :
    closeLone (a ++ '>' :: y) = closeSpan a y ++ '>' :: closeLone y := by
  have hpart {s : List Char} (hs : s <:+ a) {spot : Spot} :=
    lone?_span (y := y) (fun hm => ha (hs.subset hm)) spot
  obtain ⟨hnone, hsame⟩ | ⟨before, s, spot, rfl, hs, -, hreplaced⟩ :=
    replaceSpots_span rest_of_lone? writeLone a ('>' :: y)
  · have hlone : ¬ isLone a y = true := by
      intro hlone
      obtain ⟨s, name, inner, hs, htag, hend⟩ := isLone_iff.mp hlone
      have hne : s ≠ [] := by
        rintro rfl
        cases htag
      cases (hnone s hs hne).symm.trans ((hpart hs).mpr ⟨name, inner, htag, hend, rfl⟩)
    rw [closeSpan, Bool.not_eq_true] at *
    rw [hlone, Bool.false_and, if_neg Bool.false_ne_true, ← closeLone_close]
    exact hsame
  · obtain ⟨name, inner, htag, hend, rfl⟩ := (hpart (List.suffix_append before s)).mp hs
    have hlone := isLone_iff.mpr ⟨s, name, inner, List.suffix_append before s, htag, hend⟩
    obtain ⟨rfl, hname, -⟩ := (voidTag?_iff fun _ => isNearlyApart_of_isApart).mp htag
    have hslash := hasSlash_tag hname before inner
    have hwritten : closeLone (before ++ '<' :: (name ++ inner) ++ '>' :: y) =
        before ++ (writeLone ⟨name, inner, y⟩ ++ closeLone y) := hreplaced
    rw [hwritten, closeSpan, hlone, Bool.true_and, writeLone]
    cases hh : hasSlash (before ++ '<' :: (name ++ inner)) with
    | true =>
      rw [if_pos (hslash.mp hh), if_neg (by decide : ¬ (!true) = true)]
      simp [Spot.whole]
    | false =>
      have hopen : ¬ (trimEnd inner).getLast? = some '/' := fun he => by
        rw [hslash.mpr he] at hh
        cases hh
      rw [if_neg hopen, if_pos (by decide : (!false) = true)]
      simp [withSlash]

theorem closeLone_tail (htail : '>' ∉ tail) : closeLone tail = tail := by
  refine replaceSpots_eq_self fun s spot hs hspot => ?_
  have hstart := startTag_of_lone? hspot
  rw [(not_look_of_not_mem fun hm => htail (hs.subset hm)).1] at hstart
  cases hstart

theorem closeLone_unite (hspans : AreSpans spans) (htail : '>' ∉ tail) :
    closeLone (unite spans tail) = unite (closeSpans tail spans) tail := by
  induction spans with
  | nil => exact closeLone_tail htail
  | cons a spans ih =>
    obtain ⟨ha, hspans⟩ := List.forall_mem_cons.mp hspans
    rw [unite_cons, closeLone_span ha, ih hspans, closeSpans, unite_cons]

-- ---------------------------------------------------------------------------
-- Opening what has content

/-- The tag with a slash that a part of a span is. -/
def closedTag? : List Char → Option (List Char × List Char)
  | '<' :: c :: s =>
    if c.isAlpha then
      let inner := s.dropWhile isNameChar
      if inner.getLast? = some '/' ∧ isApart inner.dropLast = true then
        some (c :: s.takeWhile isNameChar, inner)
      else none
    else none
  | _ => none

def isVoid (name : List Char) : Bool :=
  names.contains (lowerString (String.ofList name))

def openSpan (a : List Char) : List (List Char) :=
  match Text.cutAt closedTag? a with
  | some (before, name, inner) =>
    if isVoid name then [a]
    else [before ++ '<' :: (name ++ beforeSlash inner), '<' :: '/' :: name]
  | none => [a]

theorem closed?_span (hs : '>' ∉ s) (y : List Char) :
    closed? (s ++ '>' :: y) = (closedTag? s).map fun (name, inner) => ⟨name, inner, y⟩ := by
  match s with
  | [] => rfl
  | [c] =>
    by_cases hc : c = '<'
    · subst hc
      rfl
    · simp [closed?, closedTag?, hc]
  | c :: d :: s =>
    by_cases hc : c = '<'
    · subst hc
      simp only [List.cons_append, closed?, closedTag?]
      split
      · have hclose : '>' ∉ s := fun hm => hs (by simp [hm])
        have hinner : '>' ∉ s.dropWhile isNameChar := fun hm =>
          hclose ((List.dropWhile_suffix _).subset hm)
        rw [Text.takeWhile_append_cons rfl, Text.dropWhile_append_cons rfl,
          Text.cutAtChar_append hinner]
        dsimp only
        split <;> rfl
      · rfl
    · simp [closed?, closedTag?, hc]

theorem openClosed_close (y : List Char) : openClosed ('>' :: y) = '>' :: openClosed y :=
  replaceSpots_of_none rfl

/-- A name of ASCII letters, digits and dashes that starts with a letter. -/
def IsPlainName (name : List Char) : Prop :=
  ∃ c more, name = c :: more ∧ c.isAlpha = true ∧ ∀ d ∈ more, isNameChar d = true

theorem isLoose_of_isNameChar {d : Char} (h : isNameChar d = true) : isLoose d = false := by
  obtain ⟨-, -, -, hblank, hslash, -⟩ := Markup.of_isNameLetter h
  simp [isLoose, hblank, hslash]

theorem takeWhile_nearlyApart {more : List Char} (hmore : ∀ d ∈ more, isNameChar d = true)
    (h : isNearlyApart inner = true) : (more ++ inner).takeWhile isNameChar = more ∧
      (more ++ inner).dropWhile isNameChar = inner := by
  rw [List.takeWhile_append_of_pos hmore, List.dropWhile_append_of_pos hmore]
  cases inner with
  | nil => simp
  | cons d rest =>
    have hd : isNameChar d = false := by
      cases hletter : isNameChar d with
      | false => rfl
      | true =>
        have hloose := isLoose_of_isNameChar hletter
        have hblank : isBlank d = false := by
          simp only [isLoose, Bool.or_eq_false_iff] at hloose
          exact hloose.1
        simp [isNearlyApart, isApart, hloose, hblank] at h
    simp [hd]

theorem isNearlyApart_of_closed {rest : List Char} (hz : ∀ c ∈ z, isLoose c = true)
    (hslash : (rest ++ y).getLast? = some '/') (hapart : isApart (rest ++ y).dropLast = true) :
    isNearlyApart (rest ++ z) = true := by
  match rest with
  | [] => exact isNearlyApart_append hz rfl
  | [c] =>
    cases y with
    | nil =>
      obtain rfl : c = '/' := Option.some.inj hslash
      have hall : ('/' :: z).all isLoose = true :=
        List.all_eq_true.mpr (List.forall_mem_cons.mpr ⟨rfl, hz⟩)
      rw [List.singleton_append, isNearlyApart, hall, Bool.or_true]
    | cons d y => exact isNearlyApart_of_isApart hapart
  | c :: d :: rest => exact isNearlyApart_of_isApart hapart

theorem closedTag?_iff : closedTag? s = some (name, inner) ↔
    s = '<' :: (name ++ inner) ∧ IsPlainName name ∧ inner.getLast? = some '/' ∧
      isApart inner.dropLast = true := by
  constructor
  · intro h
    unfold closedTag? at h
    split at h
    · rename_i c s
      split at h
      · rename_i hc
        simp only at h
        split at h
        · rename_i hinner
          cases h
          refine ⟨?_, ⟨c, _, rfl, hc, fun d hd => List.mem_takeWhile_imp hd⟩, hinner⟩
          rw [List.cons_append, List.takeWhile_append_dropWhile]
        · cases h
      · cases h
    · cases h
  · rintro ⟨rfl, ⟨c, more, rfl, hc, hmore⟩, hslash, hapart⟩
    have hnearly : isNearlyApart (inner ++ []) = true :=
      isNearlyApart_of_closed (y := []) nofun (by rwa [List.append_nil]) (by rwa [List.append_nil])
    rw [List.append_nil] at hnearly
    obtain ⟨htake, hdrop⟩ := takeWhile_nearlyApart hmore hnearly
    simp only [closedTag?, List.cons_append, hc, htake, hdrop, hslash, hapart, and_self, if_true]

theorem openClosed_span (ha : '>' ∉ a) (y : List Char) :
    openClosed (a ++ '>' :: y) = unite (openSpan a) (openClosed y) := by
  have hpart {s : List Char} (hs : s <:+ a) := closed?_span (fun hm => ha (hs.subset hm)) y
  obtain ⟨hnone, hsame⟩ | ⟨before, s, spot, rfl, hs, hfirst, hreplaced⟩ :=
    replaceSpots_span rest_of_closed? writeClosed a ('>' :: y)
  · have hcut : Text.cutAt closedTag? a = none := by
      cases hcut : Text.cutAt closedTag? a with
      | none => rfl
      | some found =>
        obtain ⟨before, tag⟩ := found
        obtain ⟨s, rfl, hs⟩ := Text.look_of_cutAt hcut
        have hne : s ≠ [] := by
          rintro rfl
          cases hs
        have hno := hnone s (List.suffix_append _ s) hne
        rw [hpart (List.suffix_append _ s), hs] at hno
        cases hno
    rw [openSpan, hcut, unite_cons, unite_nil, ← openClosed_close]
    exact hsame
  · rw [hpart (List.suffix_append before s)] at hs
    obtain ⟨⟨name, inner⟩, htag, rfl⟩ := Option.map_eq_some_iff.mp hs
    have hcut : Text.cutAt closedTag? (before ++ s) = some (before, name, inner) := by
      refine Text.cutAt_eq_some_iff.mpr ⟨s, rfl, htag, fun shorter longer b he hb => ?_⟩
      by_contra hlt
      have hlonger : s.length < longer.length := by
        have := congrArg List.length he
        simp only [List.length_append] at this
        omega
      have hno := hfirst longer ⟨shorter, he.symm⟩ hlonger
      rw [hpart ⟨shorter, he.symm⟩, hb] at hno
      cases hno
    have hwritten : openClosed (before ++ s ++ '>' :: y) =
        before ++ (writeClosed ⟨name, inner, y⟩ ++ openClosed y) := hreplaced
    rw [hwritten, openSpan, hcut, writeClosed, ← isVoid]
    obtain ⟨rfl, -⟩ := closedTag?_iff.mp htag
    dsimp only
    split
    · simp [Spot.whole]
    · simp

theorem openClosed_tail (htail : '>' ∉ tail) : openClosed tail = tail := by
  refine replaceSpots_eq_self fun s spot hs hspot => ?_
  rw [(not_look_of_not_mem fun hm => htail (hs.subset hm)).2] at hspot
  cases hspot

theorem openClosed_unite (hspans : AreSpans spans) (htail : '>' ∉ tail) :
    openClosed (unite spans tail) = unite (spans.flatMap openSpan) tail := by
  induction spans with
  | nil => exact openClosed_tail htail
  | cons a spans ih =>
    obtain ⟨ha, hspans⟩ := List.forall_mem_cons.mp hspans
    rw [unite_cons, openClosed_span ha, ih hspans, List.flatMap_cons]
    simp [unite]

end Mailgrid.VoidElement
