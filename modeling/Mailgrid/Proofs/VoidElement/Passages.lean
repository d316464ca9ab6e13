import Mailgrid.Proofs.Markup.Passage
import Mailgrid.Proofs.VoidElement
import Mailgrid.Proofs.VoidElement.Local

/-!
# Only tags are written anew

A search for tags knows nothing of quotes, comments and bodies. Where it sees no
tag in one that it would write anew, it changes no value, no comment and no
body: all that it changes is what start tags hold behind their last values, and
end tags with the blanks before them.
-/

namespace Mailgrid.VoidElement

open Mailgrid.Markup (Opening Passage isGap isLoose isOuter isTagName)
open Mailgrid.Text (isBlank skipBlanks trimEnd cutAtChar lowerString)

-- ---------------------------------------------------------------------------
-- Tags that are left as they are

/-- Every void start tag that is seen in a text has its slash, or an end tag behind it. -/
def isSlashed (s : List Char) : Bool :=
  s.tails.all fun t => (lone? t).all fun spot => (trimEnd spot.inner).getLast? == some '/'

/-- No void start tag that is seen in a text has its end tag behind it. -/
def isUnpaired (s : List Char) : Bool :=
  s.tails.all fun t => (paired? t).isNone

/-- Every tag with a slash that is seen in a text is that of a void element. -/
def isVoidOnly (s : List Char) : Bool :=
  s.tails.all fun t => (closed? t).all fun spot =>
    names.contains (lowerString (String.ofList spot.name))

variable {a s t : List Char} {spot : Spot}

theorem isSlashed_iff : isSlashed a = true ↔ ∀ s, s <:+ a → ∀ spot, lone? s = some spot →
    (trimEnd spot.inner).getLast? = some '/' := by
  simp [isSlashed, Option.all_eq_true]

theorem isUnpaired_iff : isUnpaired a = true ↔ ∀ s, s <:+ a → paired? s = none := by
  simp [isUnpaired]

theorem isVoidOnly_iff : isVoidOnly a = true ↔ ∀ s, s <:+ a → ∀ spot, closed? s = some spot →
    names.contains (lowerString (String.ofList spot.name)) = true := by
  simp [isVoidOnly, Option.all_eq_true]

-- ---------------------------------------------------------------------------
-- Replacing from left to right

section
variable {look : List Char → Option Spot}
  {shorter : ∀ {s : List Char} {spot : Spot}, look s = some spot → spot.rest.length < s.length}
  {write : Spot → List Char}

theorem replaceSpots_of_none {c : Char} (h : look (c :: s) = none) :
    replaceSpots look shorter write (c :: s) = c :: replaceSpots look shorter write s := by
  refine Text.substitute_of_none ?_
  split
  · rename_i hs
    rw [h] at hs
    cases hs
  · rfl

theorem replaceSpots_of_some (h : look s = some spot) :
    replaceSpots look shorter write s =
      write spot ++ replaceSpots look shorter write spot.rest := by
  refine @Text.substitute_of_match _ s (write spot) spot.rest (shorter h) ?_
  split
  · rename_i hs
    cases h.symm.trans hs
    rfl
  · rename_i hs
    cases h.symm.trans hs

/-- A spot that ends in the part `s` of a text, and is written as it stands. -/
def Stays (write : Spot → List Char) (s t : List Char) (spot : Spot) : Prop :=
  ∃ r, spot.rest = r ++ t ∧ write spot ++ r = s

/-- A part of a text is left as it is up to the first spot in it that does not stay. -/
theorem replaceSpots_upTo {P : List Char → Spot → Prop}
    (h : ∀ s, s <:+ a → s ≠ [] → ∀ spot, look (s ++ t) = some spot →
      Stays write s t spot ∨ P s spot) :
    replaceSpots look shorter write (a ++ t) = a ++ replaceSpots look shorter write t ∨
      ∃ before s spot, a = before ++ s ∧ s ≠ [] ∧ look (s ++ t) = some spot ∧ P s spot ∧
        replaceSpots look shorter write (a ++ t) =
          before ++ (write spot ++ replaceSpots look shorter write spot.rest) := by
  induction hn : a.length using Nat.strongRecOn generalizing a with
  | ind n ih =>
    subst hn
    cases a with
    | nil => exact .inl rfl
    | cons c a =>
      cases hl : look (c :: a ++ t) with
      | none =>
        have htail := ih a.length (Nat.lt_succ_self _)
          (fun s hs => h s (hs.trans (List.suffix_cons c a))) rfl
        have hcons : replaceSpots look shorter write (c :: a ++ t) =
            c :: replaceSpots look shorter write (a ++ t) := replaceSpots_of_none hl
        rw [hcons]
        obtain hsame | ⟨before, s, spot, rfl, hne, hs, hP, hreplaced⟩ := htail
        · exact .inl (by rw [hsame, List.cons_append])
        · exact .inr ⟨c :: before, s, spot, rfl, hne, hs, hP, by rw [hreplaced, List.cons_append]⟩
      | some spot =>
        rw [replaceSpots_of_some hl]
        obtain ⟨r, hrest, hback⟩ | hP := h _ List.suffix_rfl (by simp) spot hl
        · have hlt : r.length < (c :: a).length := by
            have := shorter hl
            simp only [hrest, List.length_append] at this
            omega
          have htail := ih r.length hlt
            (fun s hs => h s (hs.trans ⟨write spot, hback⟩)) rfl
          rw [hrest]
          obtain hsame | ⟨before, s, found, rfl, hne, hs, hP, hreplaced⟩ := htail
          · exact .inl (by rw [hsame, ← hback, List.append_assoc])
          · refine .inr ⟨write spot ++ before, s, found, ?_, hne, hs, hP, ?_⟩
            · rw [← hback, List.append_assoc]
            · rw [hreplaced, List.append_assoc]
        · exact .inr ⟨[], c :: a, spot, rfl, by simp, hl, hP, rfl⟩

theorem replaceSpots_append
    (h : ∀ s, s <:+ a → s ≠ [] → ∀ spot, look (s ++ t) = some spot → Stays write s t spot) :
    replaceSpots look shorter write (a ++ t) = a ++ replaceSpots look shorter write t := by
  obtain hsame | ⟨-, -, -, -, -, -, hfalse, -⟩ :=
    replaceSpots_upTo (P := fun _ _ => False)
      fun s hs hne spot hspot => .inl (h s hs hne spot hspot)
  · exact hsame
  · exact hfalse.elim

end

-- ---------------------------------------------------------------------------
-- Where cores end

theorem getLast?_trimEnd {inner u blanks : List Char} {c d : Char} (hc : isBlank c = false)
    (hb : ∀ d ∈ blanks, isBlank d = true) (h : inner <:+ u ++ c :: blanks) (hd : d ≠ c) :
    (trimEnd inner).getLast? ≠ some d := by
  obtain ⟨z, hz⟩ := h
  have hend (x : List Char) : (trimEnd (x ++ c :: blanks)).getLast? ≠ some d := by
    rw [trimEnd_append_blanks hc hb, List.getLast?_concat]
    exact fun he => hd (Option.some.inj he).symm
  rcases List.append_eq_append_iff.mp hz with ⟨x, rfl, rfl⟩ | ⟨x, rfl, hx⟩
  · exact hend x
  · cases x with
    | nil =>
      rw [List.nil_append] at hx
      rw [← hx]
      exact hend []
    | cons e x =>
      obtain rfl := (List.cons.inj hx).2
      rw [trimEnd_blanks fun d hd => hb d (List.mem_append_right _ hd)]
      exact nofun

theorem of_isAlpha {c : Char} (h : c.isAlpha = true) : isOuter c = true ∧ isLoose c = false := by
  have hletter : Markup.isNameLetter c = true := by
    simp [Markup.isNameLetter, Char.isAlphanum, h]
  exact Markup.of_ascii (P := fun c => c.isAlpha = true → isOuter c = true ∧ isLoose c = false)
    (by decide) (Markup.ascii_of_isNameLetter hletter) h

theorem isTagName_of_letters {c : Char} {more : List Char} (hc : c.isAlpha = true)
    (h : ∀ d ∈ more, isNameChar d = true) : isTagName (c :: more) = true := by
  simp only [isTagName, hc, Bool.true_and, List.all_eq_true]
  intro d hd
  exact Markup.of_ascii (P := fun d => isNameChar d = true → (isOuter d && !isLoose d) = true)
    (by decide) (Markup.ascii_of_isNameLetter (h d hd)) (h d hd)

theorem of_isTagName {name : List Char} (h : isTagName name = true) :
    (∃ u c, name = u ++ [c] ∧ isLoose c = false) ∧ ∀ c ∈ name, isOuter c = true := by
  cases name with
  | nil => cases h
  | cons c rest =>
    simp only [isTagName, Bool.and_eq_true, List.all_eq_true, Bool.not_eq_true'] at h
    obtain ⟨hc, hrest⟩ := h
    have hall : ∀ d ∈ c :: rest, isOuter d = true ∧ isLoose d = false :=
      List.forall_mem_cons.mpr ⟨of_isAlpha hc, hrest⟩
    refine ⟨⟨_, _, (List.dropLast_append_getLast (List.cons_ne_nil c rest)).symm, ?_⟩, ?_⟩
    · exact (hall _ (List.getLast_mem _)).2
    · exact fun d hd => (hall d hd).1

theorem not_mem_of_isOuter {s : List Char} (h : ∀ c ∈ s, isOuter c = true) : '<' ∉ s ∧ '>' ∉ s :=
  ⟨fun hm => Bool.noConfusion (h _ hm), fun hm => Bool.noConfusion (h _ hm)⟩

theorem exists_head_end {tag : Opening} (h : tag.WellFormed) :
    ∃ u c, tag.head = u ++ [c] ∧ isLoose c = false ∧
      ('>' ∈ tag.head → Markup.OpenTag.isQuote c = true) := by
  obtain ⟨⟨v, e, hv, he⟩, houter⟩ := of_isTagName h.name
  rcases List.eq_nil_or_concat tag.assignments with hnil | ⟨before, a, ha⟩
  · refine ⟨'<' :: v, e, by simp [Opening.head, hnil, hv], he, ?_⟩
    intro hm
    have hclose : '>' ∈ tag.name := by simpa [Opening.head, hnil] using hm
    exact absurd hclose (not_mem_of_isOuter houter).2
  · have hquote : Markup.OpenTag.isQuote a.quote = true := (h.assignments a (by simp [ha])).quote
    refine ⟨'<' :: tag.name ++ before.flatMap Markup.Assignment.write ++ a.gap ++
      a.quote :: a.value, a.quote, ?_, ?_, fun _ => hquote⟩
    · simp [Opening.head, ha, Markup.Assignment.write]
    · simp only [Markup.OpenTag.isQuote, Bool.or_eq_true, beq_iff_eq] at hquote
      rcases hquote with hq | hq <;> rw [hq] <;> rfl

/-- A tag that is seen in a core has a stop behind it in that core, or it is what the core ends in;
then it has no slash. -/
theorem stop_behind {p : Passage} (h : p.WellFormed) (hs : s <:+ p.core)
    (hspot : startTag? s = some spot) :
    (∃ d ∈ stops, d ∈ spot.rest) ∨
      (trimEnd spot.inner).getLast? ≠ some '/' ∧ lone? s = some spot := by
  obtain ⟨he, -, -⟩ := parts_of_startTag? hspot
  have hclose : '>' ∈ p.core := hs.subset (by simp [he])
  -- the last character of the core is also the last one of the text behind the tag
  have hbehind {u : List Char} {e : Char} (hu : p.core = u ++ [e]) :
      ('>' :: spot.rest).getLast? = some e := by
    obtain ⟨z, hz⟩ := hs
    have hlast := congrArg List.getLast? (hz.trans hu)
    rw [he, List.getLast?_concat] at hlast
    simpa [List.getLast?_append, List.getLast?_cons] using hlast
  have hstop {e : Char} (hl : ('>' :: spot.rest).getLast? = some e) (hne : spot.rest ≠ []) :
      e ∈ spot.rest := by
    rw [List.getLast?_cons_of_ne_nil hne] at hl
    exact List.mem_of_getLast? hl
  -- a passage that is a core as a whole
  have hwhole {u blanks : List Char} {c : Char} (hu : p.core = u ++ c :: blanks ++ ['>'])
      (hc : isLoose c = false) (hb : ∀ d ∈ blanks, isBlank d = true) :
      (∃ d ∈ stops, d ∈ spot.rest) ∨
        (trimEnd spot.inner).getLast? ≠ some '/' ∧ lone? s = some spot := by
    by_cases hne : spot.rest = []
    · right
      simp only [isLoose, Bool.or_eq_false_iff, beq_eq_false_iff_ne] at hc
      constructor
      · obtain ⟨z, hz⟩ := hs
        rw [he, hu, hne] at hz
        have hinner :
            (z ++ '<' :: spot.name) ++ spot.inner ++ ['>'] = u ++ c :: blanks ++ ['>'] := by
          simpa using hz
        have hsuffix : spot.inner <:+ u ++ c :: blanks := ⟨_, List.append_cancel_right hinner⟩
        exact getLast?_trimEnd hc.1 hb hsuffix (Ne.symm hc.2)
      · simp [lone?, hspot, hne, afterEndName?, skipBlanks]
    · exact .inl ⟨'>', by decide, hstop (hbehind hu) hne⟩
  cases p with
  | text content => cases hclose
  | closing name blanks => cases hclose
  | comment content =>
    have hu : (Passage.comment content).core =
        "<!--".toList ++ content ++ ['-'] ++ '-' :: [] ++ ['>'] := by
      simp [Passage.core, Passage.write]
    exact hwhole hu rfl (List.forall_mem_nil _)
  | opening tag =>
    obtain ⟨u, e, hu, -, hquote⟩ := exists_head_end h
    have hq := hquote hclose
    have hmem : e ∈ stops ∧ e ≠ '>' := by
      simp only [Markup.OpenTag.isQuote, Bool.or_eq_true, beq_iff_eq] at hq
      rcases hq with rfl | rfl <;> decide
    have hl := hbehind hu
    refine .inl ⟨e, hmem.1, hstop hl ?_⟩
    intro hnil
    rw [hnil] at hl
    exact hmem.2 (Option.some.inj hl).symm
  | literal tag body name blanks =>
    obtain ⟨-, -, -, hname, hblanks, -⟩ := h
    obtain ⟨⟨v, e, rfl, he⟩, -⟩ := of_isTagName hname
    have hu : (Passage.literal tag body (v ++ [e]) blanks).core =
        (tag.write ++ body ++ '<' :: '/' :: v) ++ e :: blanks ++ ['>'] := by
      simp [Passage.core, Passage.write, Passage.endTag]
    exact hwhole hu he hblanks

-- ---------------------------------------------------------------------------
-- What stays in a core

/-- How the three changes write a spot. -/
def writeLone (spot : Spot) : List Char :=
  if (trimEnd spot.inner).getLast? = some '/' then spot.whole
  else withSlash spot.name spot.inner

def writePaired (spot : Spot) : List Char :=
  withSlash spot.name (trimEnd (dropSlashes (trimEnd spot.inner)))

def writeClosed (spot : Spot) : List Char :=
  if names.contains (lowerString (String.ofList spot.name)) then spot.whole
  else '<' :: spot.name ++ beforeSlash spot.inner ++ '>' :: '<' :: '/' :: spot.name ++ ['>']

variable {p : Passage}

theorem startTag_of_paired? (h : paired? s = some spot) :
    ∃ found, startTag? s = some found ∧ found.name = spot.name ∧ found.inner = spot.inner ∧
      ∃ behind, afterEndName? found.name found.rest = some behind ∧
        skipBlanks behind = '>' :: spot.rest := by
  unfold paired? at h
  split at h
  · cases h
  · rename_i found hfound
    split at h
    · cases h
    · rename_i behind hbehind
      split at h
      · rename_i rest hrest
        cases h
        exact ⟨found, hfound, rfl, rfl, behind, hbehind, hrest⟩
      · cases h

theorem stays_of_lone (h : p.WellFormed) (hslash : isSlashed p.core = true) (hs : s <:+ p.core)
    (hclose : '>' ∈ s) (hspot : lone? (s ++ t) = some spot) : Stays writeLone s t spot := by
  have hstart := startTag_of_lone? hspot
  rw [startTag?_append hclose] at hstart
  obtain ⟨found, hfound, rfl⟩ := Option.map_eq_some_iff.mp hstart
  have hcore := isSlashed_iff.mp hslash s hs
  rcases stop_behind h hs hfound with ⟨d, hd, hmem⟩ | ⟨hne, hlone⟩
  · rw [lone?_append hfound hd hmem] at hspot
    obtain ⟨seen, hseen, heq⟩ := Option.map_eq_some_iff.mp hspot
    obtain rfl : seen = found := by
      cases (startTag_of_lone? hseen).symm.trans hfound
      rfl
    refine ⟨seen.rest, rfl, ?_⟩
    have hsame : writeLone (seen.before t) = seen.whole := if_pos (hcore seen hseen)
    rw [hsame, whole_append hfound]
  · exact absurd (hcore found hlone) hne

theorem stays_of_paired (h : p.WellFormed) (hslash : isSlashed p.core = true)
    (hpaired : isUnpaired p.core = true) (hs : s <:+ p.core) (hclose : '>' ∈ s) :
    paired? (s ++ t) = none := by
  cases hspot : paired? (s ++ t) with
  | none => rfl
  | some spot =>
    obtain ⟨found, hstart, -⟩ := startTag_of_paired? hspot
    rw [startTag?_append hclose] at hstart
    obtain ⟨seen, hseen, -⟩ := Option.map_eq_some_iff.mp hstart
    rcases stop_behind h hs hseen with ⟨d, hd, hmem⟩ | ⟨hne, hlone⟩
    · rw [paired?_append hseen hd hmem, isUnpaired_iff.mp hpaired s hs] at hspot
      cases hspot
    · exact absurd (isSlashed_iff.mp hslash s hs seen hlone) hne

theorem stays_of_closed (hvoid : isVoidOnly a = true) (hs : s <:+ a) (hclose : '>' ∈ s)
    (hspot : closed? (s ++ t) = some spot) : Stays writeClosed s t spot := by
  rw [closed?_append hclose] at hspot
  obtain ⟨found, hfound, rfl⟩ := Option.map_eq_some_iff.mp hspot
  refine ⟨found.rest, rfl, ?_⟩
  have hsame : writeClosed (found.before t) = found.whole :=
    if_pos (isVoidOnly_iff.mp hvoid s hs found hfound)
  rw [hsame, (parts_of_closed? hfound).1]
  simp [Spot.whole]

-- ---------------------------------------------------------------------------
-- Ends of start tags

theorem isGap_iff {g : List Char} : isGap g = true ↔
    (∀ c ∈ g, isOuter c = true) ∧ ∀ c ∈ g.head?, isLoose c = true := by
  simp [isGap, Option.all_eq_true]

theorem isGap_of_append {g more : List Char} (h : isGap (g ++ more) = true) : isGap g = true := by
  obtain ⟨hall, hhead⟩ := isGap_iff.mp h
  refine isGap_iff.mpr ⟨fun c hc => hall c (List.mem_append_left _ hc), fun c hc => hhead c ?_⟩
  cases g with
  | nil => cases hc
  | cons d g => exact hc

theorem isGap_slash {g : List Char} (h : isGap g = true) : isGap (g ++ " /".toList) = true := by
  obtain ⟨hall, hhead⟩ := isGap_iff.mp h
  refine isGap_iff.mpr ⟨List.forall_mem_append.mpr ⟨hall, by decide⟩, fun c hc => ?_⟩
  cases g with
  | nil =>
    cases hc
    rfl
  | cons d g => exact hhead c hc

theorem exists_gap {u g front dropped : List Char} {c : Char} (hc : isLoose c = false)
    (hd : ∀ d ∈ dropped, isLoose d = true) (h : front ++ dropped = u ++ c :: g) :
    ∃ more, front = u ++ c :: more ∧ g = more ++ dropped := by
  have h : front ++ dropped = (u ++ [c]) ++ g := by simpa using h
  rcases List.append_eq_append_iff.mp h with ⟨x, hu, rfl⟩ | ⟨x, rfl, rfl⟩
  · cases x using List.reverseRecOn with
    | nil =>
      rw [List.append_nil] at hu
      exact ⟨[], by simp [← hu], by simp⟩
    | append_singleton x e =>
      rw [← List.append_assoc] at hu
      obtain ⟨-, he⟩ := List.append_inj' hu rfl
      obtain rfl := (List.cons.inj he).1
      have hloose := hd c (by simp)
      rw [hc] at hloose
      cases hloose
  · exact ⟨x, by simp, rfl⟩

theorem exists_trimEnd (s : List Char) :
    ∃ dropped, s = trimEnd s ++ dropped ∧ ∀ c ∈ dropped, isLoose c = true := by
  induction s with
  | nil => exact ⟨[], rfl, nofun⟩
  | cons c s ih =>
    obtain ⟨dropped, hs, hd⟩ := ih
    rw [trimEnd]
    split
    · rename_i hnil
      rw [hnil, List.nil_append] at hs
      split
      · rename_i hc
        refine ⟨c :: s, rfl, List.forall_mem_cons.mpr ⟨by simp [isLoose, hc], hs ▸ hd⟩⟩
      · exact ⟨dropped, by rw [hs]; rfl, hd⟩
    · exact ⟨dropped, by rw [List.cons_append, ← hs], hd⟩

theorem exists_dropSlashes (s : List Char) :
    ∃ dropped, s = dropSlashes s ++ dropped ∧ ∀ c ∈ dropped, isLoose c = true := by
  refine ⟨(s.reverse.takeWhile (· == '/')).reverse, ?_, ?_⟩
  · rw [dropSlashes, ← List.reverse_append, List.takeWhile_append_dropWhile, List.reverse_reverse]
  · intro c hc
    have hmem := List.mem_reverse.mp hc
    have hslash := List.mem_takeWhile_imp hmem
    simp [isLoose, hslash]

theorem exists_beforeSlash {s : List Char} (h : s.getLast? = some '/') :
    ∃ dropped, s = beforeSlash s ++ dropped ∧ ∀ c ∈ dropped, isLoose c = true := by
  obtain ⟨held, rfl⟩ := List.getLast?_eq_some_iff.mp h
  obtain ⟨dropped, hheld, hd⟩ := exists_trimEnd held
  simp only [beforeSlash, List.dropLast_concat]
  split
  · exact ⟨['/'], rfl, by decide⟩
  · refine ⟨dropped ++ ['/'], ?_, List.forall_mem_append.mpr ⟨hd, by decide⟩⟩
    rw [← List.append_assoc, ← hheld]

/-- A start tag that is kept up to `c`, with another gap behind it, and with end tags that come or
go with the blanks before them. -/
def Reclosed (u : List Char) (c : Char) (m : List Passage) (written rest : List Char) : Prop :=
  ∃ (gap : List Char) (ends more : List Passage), isGap gap = true ∧
    (∀ p ∈ ends, p.WellFormed) ∧ ends.flatMap Passage.kept = [] ∧
    more <:+ m ∧ more.flatMap Passage.kept = m.flatMap Passage.kept ∧
    written = u ++ c :: gap ++ '>' :: ends.flatMap Passage.write ∧
    rest = more.flatMap Passage.write

theorem eq_of_append_close {x y z w : List Char} (hx : '>' ∉ x) (hy : '>' ∉ y)
    (h : x ++ '>' :: z = y ++ '>' :: w) : x = y ∧ z = w := by
  have hcut := Text.cutAtChar_append hx z
  rw [h, Text.cutAtChar_append hy] at hcut
  cases hcut
  exact ⟨rfl, rfl⟩

variable {u g : List Char} {c : Char} {m : List Passage}

/-- Where a text goes on with an end tag, but for blanks, that end tag is its first passage. -/
theorem exists_closing (h : ∀ p ∈ m, p.WellFormed)
    (hs : skipBlanks (m.flatMap Passage.write) = '<' :: '/' :: s) :
    ∃ name blanks more, more <:+ m ∧ more.flatMap Passage.kept = m.flatMap Passage.kept ∧
      '>' ∉ name ++ blanks ∧ s = name ++ blanks ++ '>' :: more.flatMap Passage.write := by
  induction m with
  | nil => cases hs
  | cons p m ih =>
    obtain ⟨hp, hm⟩ := List.forall_mem_cons.mp h
    have hblank : isBlank '<' = false := rfl
    have hopening {t : Opening} (ht : t.WellFormed) {rest : List Char} :
        skipBlanks (t.write ++ rest) ≠ '<' :: '/' :: s := by
      intro he
      obtain ⟨name, assignments, last⟩ := t
      cases name with
      | nil => cases ht.name
      | cons c name =>
        have hc : c.isAlpha = true := (Bool.and_eq_true_iff.mp ht.name).1
        simp only [Opening.write, Opening.head, List.cons_append,
          Text.skipBlanks_of_not_blank hblank] at he
        obtain ⟨rfl, -⟩ := List.cons.inj (List.cons.inj he).2
        cases hc
    cases p with
    | text content =>
      rw [List.flatMap_cons] at hs
      by_cases hall : ∀ c ∈ content, isBlank c = true
      · have hskip : skipBlanks (content ++ m.flatMap Passage.write) =
            skipBlanks (m.flatMap Passage.write) := List.dropWhile_append_of_pos hall
        obtain ⟨name, blanks, more, hsuffix, hkept, hclose, he⟩ := ih hm (hskip.symm.trans hs)
        refine ⟨name, blanks, more, hsuffix.trans (List.suffix_cons _ _), ?_, hclose, he⟩
        have hnone : Passage.kept (.text content) = [] := if_pos (List.all_eq_true.mpr hall)
        rw [List.flatMap_cons, hnone, hkept, List.nil_append]
      · simp only [not_forall, Bool.not_eq_true] at hall
        obtain ⟨c, hc, hb⟩ := hall
        obtain ⟨-, hskip, hmem⟩ := Text.run_append hc hb (m.flatMap Passage.write)
        have hfirst : content.dropWhile isBlank ++ m.flatMap Passage.write = '<' :: '/' :: s :=
          hskip.symm.trans hs
        cases hd : content.dropWhile isBlank with
        | nil =>
          rw [hd] at hmem
          cases hmem
        | cons d more =>
          rw [hd] at hfirst
          obtain rfl := (List.cons.inj hfirst).1
          have hhead : '<' ∈ content.dropWhile isBlank := by simp [hd]
          exact absurd ((List.dropWhile_sublist _).subset hhead) hp
    | comment content =>
      cases hs
    | opening t => exact absurd hs (hopening hp)
    | literal t body name blanks =>
      rw [List.flatMap_cons, Passage.write, List.append_assoc, List.append_assoc] at hs
      exact absurd hs (hopening hp.1)
    | closing name blanks =>
      obtain ⟨hname, hblanks⟩ := hp
      refine ⟨name, blanks, m, List.suffix_cons _ _, rfl, ?_, ?_⟩
      · intro hmem
        rcases List.mem_append.mp hmem with hmem | hmem
        · exact (not_mem_of_isOuter (of_isTagName hname).2).2 hmem
        · cases hblanks _ hmem
      · have hwritten : skipBlanks ((Passage.closing name blanks :: m).flatMap Passage.write) =
            '<' :: '/' :: (name ++ blanks ++ '>' :: m.flatMap Passage.write) := by
          simp [Passage.write, Passage.endTag, Text.skipBlanks_of_not_blank hblank]
        cases hwritten.symm.trans hs
        rfl

theorem rest_of_afterEndName? {name behind rest : List Char} (h : ∀ p ∈ m, p.WellFormed)
    (hname : ∀ w ∈ name, Text.foldKey w ≠ Text.foldKey '>')
    (hb : afterEndName? name (m.flatMap Passage.write) = some behind)
    (hrest : skipBlanks behind = '>' :: rest) :
    ∃ more, more <:+ m ∧ more.flatMap Passage.kept = m.flatMap Passage.kept ∧
      rest = more.flatMap Passage.write := by
  unfold afterEndName? at hb
  split at hb
  · rename_i after hafter
    obtain ⟨closed, blanks, more, hsuffix, hkept, hclose, rfl⟩ := exists_closing h hafter
    refine ⟨more, hsuffix, hkept, ?_⟩
    have hlast : '>' ∈ closed ++ blanks ++ ['>'] := by simp
    have hsplit : closed ++ blanks ++ '>' :: more.flatMap Passage.write =
        closed ++ blanks ++ ['>'] ++ more.flatMap Passage.write := by simp
    rw [hsplit, Text.afterFolded?_append hname hlast] at hb
    obtain ⟨part, hpart, rfl⟩ := Option.map_eq_some_iff.mp hb
    have hmem := Text.mem_of_afterFolded? hname hlast hpart
    obtain ⟨-, hskip, hstay⟩ := Text.run_append hmem (p := isBlank) rfl (more.flatMap Passage.write)
    have hfirst : part.dropWhile isBlank ++ more.flatMap Passage.write = '>' :: rest :=
      hskip.symm.trans hrest
    have hend : part.dropWhile isBlank <:+ closed ++ blanks ++ ['>'] :=
      (List.dropWhile_suffix isBlank).trans (Text.suffix_of_afterFolded? hpart)
    cases hd : part.dropWhile isBlank with
    | nil =>
      rw [hd] at hstay
      cases hstay
    | cons d behind =>
      rw [hd] at hfirst hend
      obtain ⟨rfl, rfl⟩ := List.cons.inj hfirst
      have htail := Text.suffix_of_not_mem hclose hend
      obtain rfl : behind = [] := by simpa using htail.length_le
      rfl
  · cases hb

section
variable (hu : '>' ∉ u ++ c :: g) (hc : isLoose c = false) (hg : isGap g = true)
include hu hc hg

/-- A spot that ends where the start tag does, with the end of what it holds dropped. -/
theorem exists_reclosed {kept dropped rest : List Char}
    (hinner : spot.inner = kept ++ dropped) (hd : ∀ d ∈ dropped, isLoose d = true)
    (hclose : '>' ∉ spot.name ++ spot.inner)
    (h : '<' :: (spot.name ++ (spot.inner ++ '>' :: spot.rest)) = u ++ c :: g ++ '>' :: rest) :
    spot.rest = rest ∧
      ∃ gap, isGap gap = true ∧ '<' :: (spot.name ++ kept) = u ++ c :: gap ∧
        g = gap ++ dropped := by
  have hopen : '>' ∉ '<' :: (spot.name ++ spot.inner) := by
    simpa using hclose
  have h : '<' :: (spot.name ++ spot.inner) ++ '>' :: spot.rest = u ++ c :: g ++ '>' :: rest := by
    rw [← h]
    simp
  obtain ⟨heq, hrest⟩ := eq_of_append_close hopen hu h
  have hfront : '<' :: (spot.name ++ kept) ++ dropped = u ++ c :: g := by
    rw [← heq, hinner]
    simp
  obtain ⟨gap, hgap, rfl⟩ := exists_gap hc hd hfront
  exact ⟨hrest, gap, isGap_of_append hg, hgap, rfl⟩

theorem reclosed_of_lone
    (hspot : lone? (u ++ c :: g ++ '>' :: m.flatMap Passage.write) = some spot) :
    Reclosed u c m (writeLone spot) spot.rest := by
  obtain ⟨he, hclose, -⟩ := parts_of_startTag? (startTag_of_lone? hspot)
  obtain ⟨hrest, gap, hgap, hwritten, rfl⟩ :=
    exists_reclosed hu hc hg (List.append_nil _).symm nofun hclose he.symm
  rw [writeLone]
  split
  · refine ⟨gap, [], m, hgap, nofun, rfl, List.suffix_rfl, rfl, ?_, hrest⟩
    rw [Spot.whole, List.cons_append, hwritten]
    rfl
  · refine ⟨gap ++ " /".toList, [], m, isGap_slash hgap, nofun, rfl, List.suffix_rfl, rfl, ?_,
      hrest⟩
    have hslash :
        withSlash spot.name spot.inner = '<' :: (spot.name ++ spot.inner) ++ " />".toList := by
      simp [withSlash]
    rw [hslash, hwritten]
    simp

theorem reclosed_of_closed
    (hspot : closed? (u ++ c :: g ++ '>' :: m.flatMap Passage.write) = some spot) :
    Reclosed u c m (writeClosed spot) spot.rest := by
  obtain ⟨he, hclose, ⟨e, more, hname, ha, hm⟩, hslash⟩ := parts_of_closed? hspot
  rw [writeClosed]
  split
  · obtain ⟨hrest, gap, hgap, hwritten, rfl⟩ :=
      exists_reclosed hu hc hg (List.append_nil _).symm nofun hclose he.symm
    refine ⟨gap, [], m, hgap, nofun, rfl, List.suffix_rfl, rfl, ?_, hrest⟩
    rw [Spot.whole, List.cons_append, hwritten]
    rfl
  · obtain ⟨dropped, hinner, hd⟩ := exists_beforeSlash hslash
    obtain ⟨hrest, gap, hgap, hwritten, rfl⟩ :=
      exists_reclosed hu hc hg hinner hd hclose he.symm
    refine ⟨gap, [.closing spot.name []], m, hgap, ?_, rfl, List.suffix_rfl, rfl, ?_, hrest⟩
    · refine List.forall_mem_singleton.mpr ⟨?_, nofun⟩
      rw [hname]
      exact isTagName_of_letters ha hm
    · rw [List.cons_append, hwritten]
      simp [Passage.write, Passage.endTag]

theorem reclosed_of_paired (hm : ∀ p ∈ m, p.WellFormed)
    (hspot : paired? (u ++ c :: g ++ '>' :: m.flatMap Passage.write) = some spot) :
    Reclosed u c m (writePaired spot) spot.rest := by
  obtain ⟨found, hfound, hname, hinner, behind, hbehind, hrest⟩ := startTag_of_paired? hspot
  obtain ⟨he, hclose, hfold⟩ := parts_of_startTag? hfound
  obtain ⟨first, hfirst, hd1⟩ := exists_trimEnd found.inner
  obtain ⟨second, hsecond, hd2⟩ := exists_dropSlashes (trimEnd found.inner)
  obtain ⟨third, hthird, hd3⟩ := exists_trimEnd (dropSlashes (trimEnd found.inner))
  have hdropped : found.inner =
      trimEnd (dropSlashes (trimEnd found.inner)) ++ (third ++ (second ++ first)) := by
    rw [← List.append_assoc, ← hthird, ← List.append_assoc, ← hsecond, ← hfirst]
  have hloose : ∀ d ∈ third ++ (second ++ first), isLoose d = true :=
    List.forall_mem_append.mpr ⟨hd3, List.forall_mem_append.mpr ⟨hd2, hd1⟩⟩
  obtain ⟨hbody, gap, hgap, hwritten, -⟩ :=
    exists_reclosed hu hc hg hdropped hloose hclose he.symm
  rw [hbody] at hbehind
  obtain ⟨more, hsuffix, hkept, htail⟩ :=
    rest_of_afterEndName? hm (hfold '>' (by decide)) hbehind hrest
  refine ⟨gap ++ " /".toList, [], more, isGap_slash hgap, nofun, rfl, hsuffix, hkept, ?_, htail⟩
  have hslash (kept : List Char) :
      withSlash found.name kept = '<' :: (found.name ++ kept) ++ " />".toList := by
    simp [withSlash]
  rw [writePaired, ← hname, ← hinner, hslash, hwritten]
  simp

end

-- ---------------------------------------------------------------------------
-- Sequences of passages

section
variable {look : List Char → Option Spot}
  {shorter : ∀ {s : List Char} {spot : Spot}, look s = some spot → spot.rest.length < s.length}
  {write : Spot → List Char}

/-- The text of passages that keep what these do. -/
def Keeps (m : List Passage) (s : List Char) : Prop :=
  ∃ more : List Passage, (∀ p ∈ more, p.WellFormed) ∧ more.flatMap Passage.write = s ∧
    more.flatMap Passage.kept = m.flatMap Passage.kept

theorem Keeps.cons (hp : p.WellFormed) {s : List Char} (h : Keeps m s) :
    Keeps (p :: m) (p.write ++ s) := by
  obtain ⟨more, hmore, rfl, hkept⟩ := h
  refine ⟨p :: more, List.forall_mem_cons.mpr ⟨hp, hmore⟩, by simp, ?_⟩
  rw [List.flatMap_cons, List.flatMap_cons, hkept]

theorem Keeps.reclosed {tag : Opening} {before written rest : List Char} (ht : tag.WellFormed)
    (hhead : tag.head = before ++ (u ++ [c])) (h : Reclosed u c m written rest)
    (hrest : ∀ more, more <:+ m →
      Keeps more (replaceSpots look shorter write (more.flatMap Passage.write))) :
    Keeps (.opening tag :: m) (before ++ (written ++ replaceSpots look shorter write rest)) := by
  obtain ⟨gap, ends, more, hgap, hends, hnothing, hsuffix, hsame, rfl, rfl⟩ := h
  obtain ⟨behind, hbehind, hwritten, hkept⟩ := hrest more hsuffix
  have htag : Opening.WellFormed { tag with last := gap } := ⟨ht.name, ht.assignments, hgap⟩
  refine ⟨.opening { tag with last := gap } :: (ends ++ behind), ?_, ?_, ?_⟩
  · exact List.forall_mem_cons.mpr ⟨htag, List.forall_mem_append.mpr ⟨hends, hbehind⟩⟩
  · have hopening :
        Passage.write (.opening { tag with last := gap }) = tag.head ++ gap ++ ['>'] := rfl
    rw [List.flatMap_cons, List.flatMap_append, hopening, hhead, hwritten]
    simp
  · rw [List.flatMap_cons, List.flatMap_append, List.flatMap_cons, hnothing, hkept, hsame]
    rfl

section
variable (hstart : ∀ {s spot}, look s = some spot → ∃ c t, s = '<' :: c :: t ∧ c ≠ '/')
include hstart

theorem stays_of_not_mem (ha : '<' ∉ a) (hs : s <:+ a) (hne : s ≠ [])
    (hspot : look (s ++ t) = some spot) : Stays write s t spot := by
  obtain ⟨d, more, he, -⟩ := hstart hspot
  cases s with
  | nil => exact absurd rfl hne
  | cons e s =>
    obtain rfl := (List.cons.inj he).1
    exact absurd (hs.subset List.mem_cons_self) ha

theorem stays_of_core (hp : p.WellFormed) (hopening : ∀ tag, p ≠ .opening tag)
    (hcore : ∀ s, s <:+ p.core → '>' ∈ s → ∀ t spot, look (s ++ t) = some spot →
      Stays write s t spot)
    (hs : s <:+ p.write) (hne : s ≠ []) (hspot : look (s ++ t) = some spot) :
    Stays write s t spot := by
  have hwhole {x : List Char} (hx : p.write = x ++ ['>']) (hsame : p.core = p.write) :
      Stays write s t spot := by
    refine hcore s (hsame ▸ hs) ?_ t spot hspot
    rw [hx] at hs
    obtain hnil | ⟨y, rfl, -⟩ := List.suffix_concat_iff.mp hs
    · exact absurd hnil hne
    · simp
  cases p with
  | text content => exact stays_of_not_mem hstart hp hs hne hspot
  | comment content =>
    have hx : (Passage.comment content).write =
        "<!--".toList ++ content ++ ['-', '-'] ++ ['>'] := by
      simp [Passage.write]
    exact hwhole hx rfl
  | opening tag => exact absurd rfl (hopening tag)
  | closing name blanks =>
    rcases List.suffix_cons_iff.mp hs with rfl | hs
    · obtain ⟨d, more, he, hd⟩ := hstart hspot
      exact absurd (List.cons.inj (List.cons.inj he).2).1.symm hd
    · obtain ⟨hname, hblanks⟩ := hp
      have hn := (not_mem_of_isOuter (of_isTagName hname).2).1
      have hb : '<' ∉ blanks := fun hm => Bool.noConfusion (hblanks _ hm)
      exact stays_of_not_mem hstart (by simp [hn, hb]) hs hne hspot
  | literal tag body name blanks =>
    have hx : (Passage.literal tag body name blanks).write =
        tag.write ++ body ++ '<' :: '/' :: name ++ blanks ++ ['>'] := by
      simp [Passage.write, Passage.endTag]
    exact hwhole hx rfl

/-- A start tag is left as it is, or it is closed in another way. -/
theorem keeps_opening {tag : Opening} (ht : tag.WellFormed)
    (hcore : ∀ s, s <:+ tag.head → '>' ∈ s → ∀ t spot, look (s ++ t) = some spot →
      Stays write s t spot)
    (hend : ∀ {u c g spot}, '>' ∉ u ++ c :: g → isLoose c = false → isGap g = true →
      look (u ++ c :: g ++ '>' :: m.flatMap Passage.write) = some spot →
      Reclosed u c m (write spot) spot.rest)
    (hrest : ∀ more, more <:+ m →
      Keeps more (replaceSpots look shorter write (more.flatMap Passage.write))) :
    Keeps (.opening tag :: m)
      (replaceSpots look shorter write ((Passage.opening tag :: m).flatMap Passage.write)) := by
  obtain ⟨hopen, hclose⟩ := not_mem_of_isOuter (isGap_iff.mp ht.last).1
  have hsplit : (Passage.opening tag :: m).flatMap Passage.write =
      tag.head ++ (tag.last ++ '>' :: m.flatMap Passage.write) := by
    simp [Passage.write, Opening.write]
  have hreplaced := @replaceSpots_upTo tag.head (tag.last ++ '>' :: m.flatMap Passage.write)
    look shorter write (fun s _ => '>' ∉ s) fun s hs _ spot hspot =>
      (Decidable.em ('>' ∈ s)).imp_left fun hm => hcore s hs hm _ spot hspot
  rw [hsplit]
  obtain hsame | ⟨before, s, spot, hhead, hne, hspot, hnone, hreplaced⟩ := hreplaced
  · have hlast : '<' ∉ tag.last ++ ['>'] := by simp [hopen]
    have htail : tag.last ++ '>' :: m.flatMap Passage.write =
        tag.last ++ ['>'] ++ m.flatMap Passage.write := by simp
    have hopening : Passage.WellFormed (.opening tag) := ht
    rw [hsame, htail, replaceSpots_append fun s hs hne _ => stays_of_not_mem hstart hlast hs hne,
      ← List.append_assoc, ← List.append_assoc]
    exact (hrest m List.suffix_rfl).cons hopening
  · obtain ⟨x, c, hx, hc, -⟩ := exists_head_end ht
    have hs : s <:+ x ++ [c] := ⟨before, by rw [← hhead, hx]⟩
    obtain hnil | ⟨u, rfl, -⟩ := List.suffix_concat_iff.mp hs
    · exact absurd hnil hne
    · have hu : '>' ∉ u ++ c :: tag.last := by
        simpa [hclose, not_or] using hnone
      have hwhole : u ++ [c] ++ (tag.last ++ '>' :: m.flatMap Passage.write) =
          u ++ c :: tag.last ++ '>' :: m.flatMap Passage.write := by simp
      rw [hwhole] at hspot
      rw [hreplaced]
      exact Keeps.reclosed ht hhead (hend hu hc ht.last hspot) hrest

/-- What stays in the cores and changes start tags at their ends only keeps what has a meaning. -/
theorem keeps_replaceSpots (hm : ∀ p ∈ m, p.WellFormed)
    (hcore : ∀ p ∈ m, ∀ s, s <:+ p.core → '>' ∈ s → ∀ t spot, look (s ++ t) = some spot →
      Stays write s t spot)
    (hend : ∀ {u c g} {m : List Passage} {spot}, '>' ∉ u ++ c :: g → isLoose c = false →
      isGap g = true → (∀ p ∈ m, p.WellFormed) →
      look (u ++ c :: g ++ '>' :: m.flatMap Passage.write) = some spot →
      Reclosed u c m (write spot) spot.rest) :
    Keeps m (replaceSpots look shorter write (m.flatMap Passage.write)) := by
  induction hn : m.length using Nat.strongRecOn generalizing m with
  | ind n ih =>
    subst hn
    cases m with
    | nil => exact ⟨[], nofun, (Text.substitute_nil _).symm, rfl⟩
    | cons p m =>
      obtain ⟨hp, hwell⟩ := List.forall_mem_cons.mp hm
      obtain ⟨hpcore, hmcore⟩ := List.forall_mem_cons.mp hcore
      -- an end tag that is dropped goes with what stands before it, so any rest of `m` may follow
      have hrest (more : List Passage) (h : more <:+ m) := ih more.length
        (Nat.lt_succ_of_le h.length_le) (fun q hq => hwell q (h.subset hq))
        (fun q hq => hmcore q (h.subset hq)) rfl
      by_cases hopening : ∃ tag, p = .opening tag
      · obtain ⟨tag, rfl⟩ := hopening
        exact keeps_opening hstart hp hpcore (fun hu hc hg => hend hu hc hg hwell) hrest
      · have hnot : ∀ tag, p ≠ .opening tag := fun tag he => hopening ⟨tag, he⟩
        rw [List.flatMap_cons, replaceSpots_append fun s hs hne _ =>
          stays_of_core hstart hp hnot hpcore hs hne]
        exact (hrest m List.suffix_rfl).cons hp

end

end

-- ---------------------------------------------------------------------------
-- The three changes

theorem start_of_startTag? (h : startTag? s = some spot) : ∃ c t, s = '<' :: c :: t ∧ c ≠ '/' := by
  obtain ⟨he, -, -⟩ := parts_of_startTag? h
  cases hs : spot.name ++ (spot.inner ++ '>' :: spot.rest) with
  | nil => simp at hs
  | cons c t =>
    refine ⟨c, t, by rw [he, hs], ?_⟩
    rintro rfl
    have hnone : spelledName? ('/' :: t) = none := rfl
    rw [he, hs, startTag?, hnone] at h
    cases h

theorem start_of_closed? (h : closed? s = some spot) : ∃ c t, s = '<' :: c :: t ∧ c ≠ '/' := by
  obtain ⟨he, -, ⟨c, more, hname, hc, -⟩, -⟩ := parts_of_closed? h
  refine ⟨c, more ++ (spot.inner ++ '>' :: spot.rest), by rw [he, hname]; rfl, ?_⟩
  rintro rfl
  cases hc

variable (hm : ∀ p ∈ m, p.WellFormed)
include hm

theorem keeps_closeLone (hs : ∀ p ∈ m, isSlashed p.core = true) :
    Keeps m (closeLone (m.flatMap Passage.write)) := by
  refine keeps_replaceSpots (fun h => start_of_startTag? (startTag_of_lone? h)) hm ?_ ?_
  · intro p hp s hsuffix hclose t spot hspot
    exact stays_of_lone (hm p hp) (hs p hp) hsuffix hclose hspot
  · intro u c g m spot hu hc hg _ hspot
    exact reclosed_of_lone hu hc hg hspot

theorem keeps_joinPaired (hs : ∀ p ∈ m, isSlashed p.core = true)
    (hp : ∀ p ∈ m, isUnpaired p.core = true) : Keeps m (joinPaired (m.flatMap Passage.write)) := by
  refine keeps_replaceSpots (fun h => ?_) hm ?_ ?_
  · obtain ⟨found, hfound, -⟩ := startTag_of_paired? h
    exact start_of_startTag? hfound
  · intro p hmem s hsuffix hclose t spot hspot
    rw [stays_of_paired (hm p hmem) (hs p hmem) (hp p hmem) hsuffix hclose] at hspot
    cases hspot
  · intro u c g m spot hu hc hg hm hspot
    exact reclosed_of_paired hu hc hg hm hspot

theorem keeps_openClosed (hv : ∀ p ∈ m, isVoidOnly p.core = true) :
    Keeps m (openClosed (m.flatMap Passage.write)) := by
  refine keeps_replaceSpots start_of_closed? hm ?_ ?_
  · intro p hp s hsuffix hclose t spot hspot
    exact stays_of_closed (hv p hp) hsuffix hclose hspot
  · intro u c g m spot hu hc hg _ hspot
    exact reclosed_of_closed hu hc hg hspot

end Mailgrid.VoidElement
