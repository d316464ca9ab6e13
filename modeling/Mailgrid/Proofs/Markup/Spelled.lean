import Mailgrid.Proofs.Markup.Passage
import Mailgrid.Proofs.Markup.Respelled
import Mailgrid.Proofs.Text.Words
import Mailgrid.Proofs.VoidElement.Passages

/-!
# Spellings in a text of plain tags

A text is plain if nothing in it looks like a tag but its tags, neither between them
nor in their values, and if all that stands in a tag outside of its values are names.
The names that are found in a plain text are those of its tags.
-/

namespace Mailgrid.Markup

open Mailgrid.Text (isBlank skipBlanks words)

namespace Spelling

/-- Could a text be the start of a tag, blanks or not? -/
def opensTag : List Char → Bool
  | '<' :: s => (name? (skipBlanks s)).isSome || (endTag? ('<' :: s)).isSome
  | _ => false

/-- Nothing in a text looks like a tag, even if it goes on with a letter. -/
def isQuiet (s : List Char) : Bool :=
  s.tails.all fun t => !opensTag (t ++ ['a'])

def isNameStart (c : Char) : Bool :=
  c.isAlpha || c == '_' || c == ':'

/-- Names with blanks before them, and perhaps behind. -/
def isSpaced (s : List Char) : Bool :=
  s.all (fun c => isBlank c || isNameChar c) && s.head?.all isBlank &&
    (words s).all fun word => word.head?.all isNameStart

end Spelling

open Spelling (isNameChar isNameStart isQuiet isSpaced)

-- ---------------------------------------------------------------------------
-- Plain texts

/-- What stands before the sign of an assignment. -/
def Assignment.names (a : Assignment) : List Char :=
  a.gap.takeWhile (· != '=')

/-- What stands behind the last value, before the slash of a tag that is closed at once. -/
def Opening.lastNames (t : Opening) : List Char :=
  t.last.takeWhile (· != '/')

/-- The names in a start tag but its own. -/
def Opening.attributeNames (t : Opening) : List (List Char) :=
  t.assignments.flatMap (fun a => words a.names) ++ words t.lastNames

/-- Outside of its values a tag holds names alone, each behind a blank. -/
structure Opening.Plain (t : Opening) : Prop where
  wellFormed : t.WellFormed
  name : ∀ c ∈ t.name, isNameChar c = true
  gaps : ∀ a ∈ t.assignments, isSpaced a.names = true ∧
    ∃ blanks, a.gap = a.names ++ '=' :: blanks ∧ ∀ c ∈ blanks, isBlank c = true
  values : ∀ a ∈ t.assignments, isQuiet a.value = true
  last : isSpaced t.lastNames = true ∧ (t.last = t.lastNames ∨ t.last = t.lastNames ++ ['/'])

/-- A stretch of a text: a tag, or what looks like none. -/
inductive Stretch where
  | quiet (content : List Char)
  | opening (tag : Opening)
  | closing (name blanks : List Char)

namespace Stretch

def write : Stretch → List Char
  | quiet content => content
  | opening t => t.write
  | closing name blanks => Passage.endTag name blanks

def opening? : Stretch → Option Opening
  | opening t => some t
  | _ => none

def closing? : Stretch → Option (List Char)
  | closing name _ => some name
  | _ => none

def Plain : Stretch → Prop
  | quiet content => isQuiet content = true
  | opening t => t.Plain
  | closing name blanks =>
    isTagName name = true ∧ (∀ c ∈ name, isNameChar c = true) ∧ ∀ c ∈ blanks, isBlank c = true

/-- The names of elements as the tags of a text spell them, those of start tags first. -/
def tagNames (m : List Stretch) : List (List Char) :=
  (m.filterMap opening?).map (·.name) ++ m.filterMap closing?

/-- The names of attributes as the start tags of a text spell them. -/
def attributeNames (m : List Stretch) : List (List Char) :=
  (m.filterMap opening?).flatMap Opening.attributeNames

end Stretch

namespace Spelling

variable {s rest : List Char} {c : Char}

-- ---------------------------------------------------------------------------
-- What looks like no tag

theorem opensTag_of_ne (h : c ≠ '<') (s : List Char) : opensTag (c :: s) = false := by
  unfold opensTag
  split
  · rename_i he
    exact absurd (List.cons.inj he).1 h
  · rfl

theorem isQuiet_cons :
    isQuiet (c :: s) = (!opensTag (c :: (s ++ ['a'])) && isQuiet s) := by
  simp [isQuiet, List.tails]

theorem exists_sign (h : name? (skipBlanks (s ++ ['a'])) = none) :
    ∃ d u, d.isAlpha = false ∧ ∀ rest, skipBlanks (s ++ rest) = d :: (u ++ rest) := by
  induction s with
  | nil => cases h
  | cons c s ih =>
    simp only [skipBlanks, List.cons_append, List.dropWhile_cons] at h ih ⊢
    split
    · rename_i hc
      rw [if_pos hc] at h
      exact ih h
    · rename_i hc
      rw [if_neg hc] at h
      refine ⟨c, s, ?_, fun _ => rfl⟩
      simp only [name?] at h
      split at h
      · cases h
      · simp_all

theorem opensTag_append (h : opensTag (c :: (s ++ ['a'])) = false) (rest : List Char) :
    opensTag (c :: (s ++ rest)) = false := by
  by_cases hc : c = '<'
  · subst hc
    simp only [opensTag, endTag?, Bool.or_eq_false_iff, Option.isSome_eq_false_iff,
      Option.isNone_iff_eq_none] at h ⊢
    obtain ⟨hstart, hend⟩ := h
    obtain ⟨d, u, hd, hbehind⟩ := exists_sign hstart
    rw [hbehind] at hend ⊢
    refine ⟨by simp [name?, hd], ?_⟩
    by_cases hslash : d = '/'
    · subst hslash
      obtain ⟨e, v, he, hlater⟩ := exists_sign hend
      simp [hlater, name?, he]
    · split
      · rename_i he
        exact absurd (List.cons.inj he).1 hslash
      · rfl
  · exact opensTag_of_ne hc _

theorem not_mem_of_isTagName {name : List Char} (h : isTagName name = true) : '<' ∉ name :=
  (VoidElement.not_mem_of_isOuter (VoidElement.of_isTagName h).2).1

theorem not_mem_of_isGap (h : isGap s = true) : '<' ∉ s := by
  simp only [isGap, Bool.and_eq_true, List.all_eq_true] at h
  exact (VoidElement.not_mem_of_isOuter h.1).1

theorem quote_cases {a : Assignment} (h : a.WellFormed) : a.quote = '"' ∨ a.quote = '\'' := by
  simpa [OpenTag.isQuote] using h.quote

theorem not_quote_of_outer (h : isGap s = true) : ∀ c ∈ s, c ∉ ['>', '"', '\''] := by
  simp only [isGap, Bool.and_eq_true, List.all_eq_true] at h
  intro c hc
  obtain ⟨⟨-, hclose⟩, hquotes⟩ : (¬c = '<' ∧ ¬c = '>') ∧ ¬c = '"' ∧ ¬c = '\'' := by
    simpa [isOuter, OpenTag.isQuote] using h.1 c hc
  simp [hclose, hquotes]

section
variable {β : Type} {look : List Char → List β}
  (skip : ∀ c s, opensTag (c :: s) = false → look (c :: s) = look s)
include skip

theorem look_of_not_mem (h : '<' ∉ s) (rest : List Char) : look (s ++ rest) = look rest := by
  induction s with
  | nil => rfl
  | cons c s ih =>
    simp only [List.mem_cons, not_or] at h
    rw [List.cons_append, skip c _ (opensTag_of_ne (Ne.symm h.1) _), ih h.2]

theorem look_of_quiet (h : isQuiet s = true) (rest : List Char) :
    look (s ++ rest) = look rest := by
  induction s with
  | nil => rfl
  | cons c s ih =>
    rw [isQuiet_cons, Bool.and_eq_true, Bool.not_eq_true'] at h
    rw [List.cons_append, skip c _ (opensTag_append h.1 rest), ih h.2]

theorem look_of_assignments {assignments : List Assignment}
    (h : ∀ a ∈ assignments, a.WellFormed ∧ isQuiet a.value = true) (rest : List Char) :
    look (assignments.flatMap Assignment.write ++ rest) = look rest := by
  induction assignments with
  | nil => rfl
  | cons a assignments ih =>
    obtain ⟨⟨hwell, hquiet⟩, hmore⟩ := List.forall_mem_cons.mp h
    have hgap : '<' ∉ a.gap := not_mem_of_isGap hwell.gap
    have hquote : '<' ∉ [a.quote] := by
      obtain hq | hq := quote_cases hwell
      · simp [hq]
      · simp [hq]
    have hwritten : (a :: assignments).flatMap Assignment.write ++ rest =
        a.gap ++ ([a.quote] ++ (a.value ++ ([a.quote] ++
          (assignments.flatMap Assignment.write ++ rest)))) := by
      simp [Assignment.write]
    rw [hwritten, look_of_not_mem skip hgap, look_of_not_mem skip hquote,
      look_of_quiet skip hquiet, look_of_not_mem skip hquote, ih hmore]

end

theorem skip_startTags (c : Char) (s : List Char) (h : opensTag (c :: s) = false) :
    startTags (c :: s) = startTags s := by
  refine startTags_of_none ?_
  by_cases hc : c = '<'
  · subst hc
    simp only [opensTag, Bool.or_eq_false_iff, Option.isSome_eq_false_iff,
      Option.isNone_iff_eq_none] at h
    simp only [startTag?, h.1]
  · exact startTag?_of_ne hc

theorem skip_endTags (c : Char) (s : List Char) (h : opensTag (c :: s) = false) :
    everywhere endTag? (c :: s) = everywhere endTag? s := by
  have hnone : endTag? (c :: s) = none := by
    by_cases hc : c = '<'
    · subst hc
      simp only [opensTag, Bool.or_eq_false_iff, Option.isSome_eq_false_iff,
        Option.isNone_iff_eq_none] at h
      exact h.2
    · exact endTag?_of_ne hc
  rw [everywhere, hnone]
  rfl

-- ---------------------------------------------------------------------------
-- Names in a tag

theorem not_letter_of_blank (h : isBlank c = true) : isNameChar c = false := by
  have hall : ∀ n ∈ [9, 10, 11, 12, 13, 28, 29, 30, 31, 32, 0x85, 0xA0, 0x1680, 0x2000, 0x2001,
      0x2002, 0x2003, 0x2004, 0x2005, 0x2006, 0x2007, 0x2008, 0x2009, 0x200A, 0x2028, 0x2029,
      0x202F, 0x205F, 0x3000], isNameChar (Char.ofNat n) = false := by decide +kernel
  have hc := hall c.toNat (by
    simp only [isBlank, Bool.or_eq_true, Bool.and_eq_true, decide_eq_true_eq, beq_iff_eq] at h
    simp only [List.mem_cons, List.not_mem_nil, or_false]
    omega)
  rwa [Char.ofNat_toNat] at hc

theorem not_blank_of_letter (h : isNameChar c = true) : isBlank c = false := by
  cases hb : isBlank c with
  | false => rfl
  | true => exact absurd h (by simp [not_letter_of_blank hb])

theorem not_start_of_blank (h : isBlank c = true) : isNameStart c = false := by
  cases hs : isNameStart c with
  | false => rfl
  | true => exact absurd (isNameChar_of_start hs) (by simp [not_letter_of_blank h])

theorem isBlank_of_spaced (h : (isBlank c || isNameChar c) = true) :
    isBlank c = !isNameChar c := by
  cases hb : isBlank c with
  | true => rw [not_letter_of_blank hb]; rfl
  | false =>
    rw [hb, Bool.false_or] at h
    rw [h]; rfl

theorem attribute?_none {b : Char} (h : ∀ d ∈ s.head?, isNameStart d = false) :
    attribute? (b :: s) = none := by
  cases s with
  | nil => rfl
  | cons d s =>
    have hd : (d.isAlpha || d == '_' || d == ':') = false := h d rfl
    simp [attribute?, hd]

theorem exists_letters (hs : ∀ c ∈ s, isBlank c = !isNameChar c) :
    ∃ name behind, s = name ++ behind ∧ (∀ d ∈ name, isNameChar d = true) ∧
      ∀ d ∈ behind.head?, isBlank d = true := by
  induction s with
  | nil => exact ⟨[], [], rfl, nofun, nofun⟩
  | cons c s ih =>
    obtain ⟨hc, hs⟩ := List.forall_mem_cons.mp hs
    cases hletter : isNameChar c with
    | true =>
      obtain ⟨name, behind, rfl, hname, hbehind⟩ := ih hs
      exact ⟨c :: name, behind, rfl, List.forall_mem_cons.mpr ⟨hletter, hname⟩, hbehind⟩
    | false => exact ⟨[], c :: s, rfl, nofun, by simpa [hletter] using hc⟩

theorem takeWhile_letters {name : List Char} (hname : ∀ c ∈ name, isNameChar c = true)
    (hrest : ∀ d ∈ rest.head?, isNameChar d = false) :
    (name ++ rest).takeWhile isNameChar = name := by
  rw [List.takeWhile_append_of_pos hname]
  cases rest with
  | nil => simp
  | cons d rest => simp [hrest d rfl]

theorem attributes_name {b : Char} (hb : isBlank b = true) {name : List Char}
    (hstart : isNameStart c = true) (hname : ∀ d ∈ c :: name, isNameChar d = true)
    (hrest : ∀ d ∈ rest.head?, isNameChar d = false) :
    everywhere attribute? (b :: (c :: name ++ rest)) =
      (c :: name) :: everywhere attribute? rest := by
  have hletters := takeWhile_letters (List.forall_mem_cons.mp hname).2 hrest
  have hfound : attribute? (b :: (c :: (name ++ rest))) = some (c :: name) := by
    have hstart' : (c.isAlpha || c == '_' || c == ':') = true := hstart
    simp [attribute?, hb, hstart', hletters]
  have hword : ∀ d ∈ c :: name, isBlank d = false := fun d hd => not_blank_of_letter (hname d hd)
  rw [everywhere, everywhere_of_not_blank hword, List.cons_append, hfound]
  rfl

theorem words_name {name : List Char} (hname : ∀ d ∈ c :: name, isNameChar d = true)
    (hrest : ∀ d ∈ rest.head?, isBlank d = true) :
    words (c :: (name ++ rest)) = (c :: name) :: words (rest.drop 1) := by
  have hword : ∀ d ∈ c :: name, isBlank d = false := fun d hd => not_blank_of_letter (hname d hd)
  cases rest with
  | nil =>
    rw [List.append_nil, Text.words_of_not_blank hword (List.cons_ne_nil c name)]
    rfl
  | cons d rest =>
    rw [← List.cons_append, Text.words_append_blank _ (hrest d rfl),
      Text.words_of_not_blank hword (List.cons_ne_nil c name)]
    rfl

theorem attributes_behind {b : Char} (hb : isBlank b = true)
    (hs : ∀ c ∈ s, isBlank c = !isNameChar c)
    (hw : ∀ word ∈ words s, ∀ d ∈ word.head?, isNameStart d = true)
    (hrest : ∀ d ∈ rest.head?, isNameChar d = false ∧ isNameStart d = false) :
    everywhere attribute? (b :: (s ++ rest)) = words s ++ everywhere attribute? rest := by
  induction hn : s.length using Nat.strongRecOn generalizing b s with
  | ind n ih =>
    subst hn
    cases s with
    | nil =>
      rw [List.nil_append, everywhere, attribute?_none fun d hd => (hrest d hd).2]
      rfl
    | cons c s =>
      obtain ⟨hc, hs⟩ := List.forall_mem_cons.mp hs
      cases hblank : isBlank c with
      | true =>
        rw [Text.words_of_blank hblank] at hw ⊢
        have hfirst : attribute? (b :: (c :: s ++ rest)) = none := by
          refine attribute?_none fun d hd => ?_
          cases hd
          exact not_start_of_blank hblank
        rw [everywhere, hfirst]
        exact ih s.length (Nat.lt_succ_self _) hblank hs hw rfl
      | false =>
        -- a name starts behind the blank, and goes on up to the next one
        obtain ⟨name, behind, rfl, hname, hends⟩ := exists_letters hs
        have hletters : ∀ d ∈ c :: name, isNameChar d = true :=
          List.forall_mem_cons.mpr ⟨by simpa [hblank] using hc, hname⟩
        have hwords := words_name hletters hends
        have hstart : isNameStart c = true := hw (c :: name) (hwords ▸ List.mem_cons_self) c rfl
        have hnext : ∀ d ∈ (behind ++ rest).head?, isNameChar d = false := by
          cases behind with
          | nil => exact fun d hd => (hrest d hd).1
          | cons e behind => exact fun d hd => not_letter_of_blank (hends d hd)
        have hlater : everywhere attribute? (behind ++ rest) =
            words (behind.drop 1) ++ everywhere attribute? rest := by
          cases behind with
          | nil => rfl
          | cons d behind =>
            have hlength : behind.length < (c :: (name ++ d :: behind)).length := by
              simp
              omega
            have hbehind := (List.forall_mem_append.mp hs).2
            refine ih behind.length hlength (hends d rfl) (List.forall_mem_cons.mp hbehind).2 ?_ rfl
            exact fun word hm => hw word (hwords ▸ List.mem_cons_of_mem _ hm)
        have hsplit : c :: (name ++ behind) ++ rest = c :: name ++ (behind ++ rest) := by simp
        rw [hsplit, attributes_name hb hstart hletters hnext, hlater, hwords]
        rfl

theorem attributes_spaced (h : isSpaced s = true)
    (hrest : ∀ d ∈ rest.head?, isNameChar d = false ∧ isNameStart d = false) :
    everywhere attribute? (s ++ rest) = words s ++ everywhere attribute? rest := by
  simp only [isSpaced, Bool.and_eq_true, List.all_eq_true] at h
  obtain ⟨⟨hs, hhead⟩, hw⟩ := h
  have hapart : ∀ c ∈ s, isBlank c = !isNameChar c := fun c hc => isBlank_of_spaced (hs c hc)
  have hwords : ∀ word ∈ words s, ∀ d ∈ word.head?, isNameStart d = true := fun word hm d hd => by
    have := hw word hm
    rw [Option.mem_def.mp hd] at this
    exact this
  cases s with
  | nil => rfl
  | cons b s =>
    have hb : isBlank b = true := hhead
    rw [Text.words_of_blank hb] at hwords ⊢
    exact attributes_behind hb (List.forall_mem_cons.mp hapart).2 hwords hrest

theorem attributes_blanks (h : ∀ c ∈ s, isBlank c = true)
    (hrest : ∀ d ∈ rest.head?, isNameStart d = false) :
    everywhere attribute? (s ++ rest) = everywhere attribute? rest := by
  induction s with
  | nil => rfl
  | cons b s ih =>
    obtain ⟨-, hs⟩ := List.forall_mem_cons.mp h
    have hnone : attribute? (b :: (s ++ rest)) = none := by
      refine attribute?_none fun d hd => ?_
      cases s with
      | nil => exact hrest d hd
      | cons c s =>
        cases hd
        exact not_start_of_blank (hs d List.mem_cons_self)
    rw [List.cons_append, everywhere, hnone, ih hs]
    rfl

-- ---------------------------------------------------------------------------
-- Start tags

/-- A start tag as its names are looked for, with a space for each value. -/
def heldIn (t : Opening) : List Char :=
  t.assignments.flatMap (fun a => a.gap ++ [' ']) ++ t.last

theorem isSpaced_head (h : isSpaced s = true) : ∀ d ∈ s.head?, isBlank d = true := by
  simp only [isSpaced, Bool.and_eq_true] at h
  intro d hd
  have hhead := h.1.2
  rw [Option.mem_def.mp hd] at hhead
  exact hhead

theorem attributes_assignments {assignments : List Assignment}
    (h : ∀ a ∈ assignments, isSpaced a.names = true ∧
      ∃ blanks, a.gap = a.names ++ '=' :: blanks ∧ ∀ c ∈ blanks, isBlank c = true)
    {last : List Char} (hlast : ∀ d ∈ last.head?, isNameStart d = false) :
    (∀ d ∈ (assignments.flatMap (fun a => a.gap ++ [' ']) ++ last).head?, isNameStart d = false) ∧
      everywhere attribute? (assignments.flatMap (fun a => a.gap ++ [' ']) ++ last) =
        assignments.flatMap (fun a => words a.names) ++ everywhere attribute? last := by
  induction assignments with
  | nil => exact ⟨hlast, rfl⟩
  | cons a assignments ih =>
    obtain ⟨⟨hspaced, blanks, hgap, hblanks⟩, hmore⟩ := List.forall_mem_cons.mp h
    obtain ⟨hhead, hnames⟩ := ih hmore
    generalize hm : assignments.flatMap (fun a => a.gap ++ [' ']) ++ last = more at hhead hnames
    have hwritten : (a :: assignments).flatMap (fun a => a.gap ++ [' ']) ++ last =
        a.names ++ '=' :: ((blanks ++ [' ']) ++ more) := by
      rw [List.flatMap_cons, hgap, ← hm]
      simp
    have hstop : ∀ d ∈ ('=' :: ((blanks ++ [' ']) ++ more)).head?,
        isNameChar d = false ∧ isNameStart d = false := by
      intro d hd
      cases hd
      exact ⟨rfl, rfl⟩
    have hsign : everywhere attribute? ('=' :: ((blanks ++ [' ']) ++ more)) =
        everywhere attribute? more := by
      have hall : ∀ c ∈ blanks ++ [' '], isBlank c = true :=
        List.forall_mem_append.mpr ⟨hblanks, by decide⟩
      rw [everywhere, attribute?_of_not_blank rfl, attributes_blanks hall hhead]
      rfl
    rw [hwritten]
    refine ⟨?_, ?_⟩
    · cases hn : a.names with
      | nil => exact fun d hd => (hstop d hd).2
      | cons b names =>
        rw [hn] at hspaced
        intro d hd
        cases hd
        exact not_start_of_blank (isSpaced_head hspaced b rfl)
    · rw [attributes_spaced hspaced hstop, hsign, hnames, List.flatMap_cons,
        List.append_assoc]

theorem attributes_heldIn {t : Opening} (h : t.Plain) :
    everywhere attribute? (heldIn t) = t.attributeNames := by
  obtain ⟨hspaced, hlast⟩ := h.last
  rw [heldIn, Opening.attributeNames]
  generalize t.lastNames = names at hspaced hlast
  obtain ⟨ending, hending, he⟩ : ∃ ending, t.last = names ++ ending ∧
      (ending = [] ∨ ending = ['/']) := by
    obtain hlast | hlast := hlast
    · exact ⟨[], by simp [hlast], .inl rfl⟩
    · exact ⟨['/'], hlast, .inr rfl⟩
  have hstop : ∀ d ∈ ending.head?, isNameChar d = false ∧ isNameStart d = false := by
    intro d hd
    obtain rfl | rfl := he
    · cases hd
    · cases hd
      exact ⟨rfl, rfl⟩
  have hhead : ∀ d ∈ t.last.head?, isNameStart d = false := by
    rw [hending]
    cases names with
    | nil => exact fun d hd => (hstop d hd).2
    | cons b names =>
      intro d hd
      cases hd
      exact not_start_of_blank (isSpaced_head hspaced b rfl)
  have hnone : everywhere attribute? ending = [] := by obtain rfl | rfl := he <;> rfl
  rw [(attributes_assignments h.gaps hhead).2, hending, attributes_spaced hspaced hstop, hnone,
    List.append_nil]

theorem unquotedRest?_assignments {assignments : List Assignment}
    (h : ∀ a ∈ assignments, a.WellFormed) (rest : List Char) :
    unquotedRest? (assignments.flatMap Assignment.write ++ rest) =
      (unquotedRest? rest).map fun (held, behind) =>
        (assignments.flatMap (fun a => a.gap ++ [' ']) ++ held, behind) := by
  induction assignments with
  | nil => simp
  | cons a assignments ih =>
    obtain ⟨hwell, hmore⟩ := List.forall_mem_cons.mp h
    have hwritten : (a :: assignments).flatMap Assignment.write ++ rest =
        a.gap ++ a.quote :: (a.value ++ a.quote ::
          (assignments.flatMap Assignment.write ++ rest)) := by
      simp [Assignment.write]
    have hcut := Text.cutAtChar_append hwell.value (assignments.flatMap Assignment.write ++ rest)
    rw [hwritten, unquotedRest?_append (not_quote_of_outer hwell.gap),
      unquotedRest?_quoted (quote_cases hwell) hcut, ih hmore]
    simp [Option.map_map, Function.comp_def]

theorem isSpaced_stop (h : isSpaced s = true) : ∀ d ∈ s.head?, isNameChar d = false :=
  fun d hd => not_letter_of_blank (isSpaced_head h d hd)

theorem name?_letters {name : List Char} (htag : isTagName name = true)
    (hname : ∀ c ∈ name, isNameChar c = true)
    (hrest : ∀ d ∈ rest.head?, isNameChar d = false) : name? (name ++ rest) = some name := by
  cases name with
  | nil => cases htag
  | cons c name =>
    simp only [isTagName, Bool.and_eq_true] at htag
    rw [List.cons_append, name?, if_pos htag.1,
      takeWhile_letters (List.forall_mem_cons.mp hname).2 hrest]

theorem skipBlanks_tagName {name : List Char} (htag : isTagName name = true) (rest : List Char) :
    skipBlanks (name ++ rest) = name ++ rest := by
  cases name with
  | nil => cases htag
  | cons c name =>
    simp only [isTagName, Bool.and_eq_true] at htag
    have hblank : isBlank c = false := by
      have hloose := (VoidElement.of_isAlpha htag.1).2
      simp only [isLoose, Bool.or_eq_false_iff] at hloose
      exact hloose.1
    simp [skipBlanks, hblank]

theorem stop_behindName {t : Opening} (h : t.Plain) (rest : List Char) :
    ∀ d ∈ (t.assignments.flatMap Assignment.write ++ (t.last ++ '>' :: rest)).head?,
      isNameChar d = false := by
  cases hm : t.assignments with
  | cons a more =>
    obtain ⟨hspaced, blanks, hgap, -⟩ := h.gaps a (hm ▸ List.mem_cons_self)
    have hstop := isSpaced_stop hspaced
    cases hn : a.names with
    | nil =>
      have hsign : isNameChar '=' = false := rfl
      simp [Assignment.write, hgap, hn, hsign]
    | cons b names =>
      rw [hn] at hstop hgap
      simpa [Assignment.write, hgap] using hstop
  | nil =>
    obtain ⟨hspaced, hlast⟩ := h.last
    have hstop := isSpaced_stop hspaced
    cases hn : t.lastNames with
    | nil =>
      rw [hn] at hlast
      have hclose : isNameChar '>' = false ∧ isNameChar '/' = false := ⟨rfl, rfl⟩
      obtain hlast | hlast := hlast
      · simp [hlast, hclose]
      · simp [hlast, hclose]
    | cons b names =>
      rw [hn] at hstop hlast
      obtain hlast | hlast := hlast
      · simpa [hlast] using hstop
      · simpa [hlast] using hstop

theorem startTag?_opening {t : Opening} (h : t.Plain) (rest : List Char) :
    startTag? (t.write ++ rest) = some (t.name, heldIn t, rest) := by
  have hwritten : t.write ++ rest = '<' :: (t.name ++
      (t.assignments.flatMap Assignment.write ++ (t.last ++ '>' :: rest))) := by
    simp [Opening.write, Opening.head]
  have hlast : unquotedRest? (t.last ++ '>' :: rest) = some (t.last, rest) := by
    rw [unquotedRest?_append (not_quote_of_outer h.wellFormed.last), unquotedRest?, if_pos rfl]
    simp
  have hname := name?_letters h.wellFormed.name h.name (stop_behindName h rest)
  rw [hwritten, startTag?, skipBlanks_tagName h.wellFormed.name, hname]
  simp only [List.drop_left]
  rw [unquotedRest?_assignments h.wellFormed.assignments, hlast]
  rfl

-- ---------------------------------------------------------------------------
-- Plain texts

theorem not_mem_closing {name blanks : List Char} (h : (Stretch.closing name blanks).Plain) :
    '<' ∉ '/' :: (name ++ (blanks ++ ['>'])) := by
  obtain ⟨htag, -, hblanks⟩ := h
  have hblank : '<' ∉ blanks := fun hm => Bool.false_ne_true (hblanks _ hm)
  simp [not_mem_of_isTagName htag, hblank]

theorem startTags_closing {name blanks : List Char} (h : (Stretch.closing name blanks).Plain)
    (rest : List Char) :
    startTags (Passage.endTag name blanks ++ rest) = startTags rest := by
  have hwritten : Passage.endTag name blanks ++ rest =
      '<' :: ('/' :: (name ++ (blanks ++ ['>'])) ++ rest) := by
    simp [Passage.endTag]
  rw [hwritten, startTags_of_none rfl, startTags_of_not_mem (not_mem_closing h)]

theorem startTags_stretches {m : List Stretch} (h : ∀ p ∈ m, p.Plain) :
    startTags (m.flatMap Stretch.write) =
      (m.filterMap Stretch.opening?).map fun t => (t.name, heldIn t) := by
  induction m with
  | nil => exact startTags_nil
  | cons p m ih =>
    obtain ⟨hp, hm⟩ := List.forall_mem_cons.mp h
    rw [List.flatMap_cons]
    cases p with
    | quiet content =>
      rw [Stretch.write, look_of_quiet skip_startTags hp, ih hm]
      rfl
    | opening t =>
      rw [Stretch.write, startTags_of_some (startTag?_opening hp _), ih hm]
      rfl
    | closing name blanks =>
      rw [Stretch.write, startTags_closing hp, ih hm]
      rfl

theorem endTag?_tagName {name : List Char} (h : isTagName name = true) (rest : List Char) :
    endTag? ('<' :: (name ++ rest)) = none := by
  rw [endTag?, skipBlanks_tagName h]
  cases name with
  | nil => cases h
  | cons c name =>
    simp only [isTagName, Bool.and_eq_true] at h
    split
    · rename_i hs
      obtain rfl := (List.cons.inj hs).1
      exact absurd h.1 (by decide)
    · rfl

theorem endTags_opening {t : Opening} (h : t.Plain) (rest : List Char) :
    everywhere endTag? (t.write ++ rest) = everywhere endTag? rest := by
  have hwritten : t.write ++ rest = '<' :: (t.name ++
      (t.assignments.flatMap Assignment.write ++ (t.last ++ (['>'] ++ rest)))) := by
    simp [Opening.write, Opening.head]
  have hassignments : ∀ a ∈ t.assignments, a.WellFormed ∧ isQuiet a.value = true :=
    fun a ha => ⟨h.wellFormed.assignments a ha, h.values a ha⟩
  rw [hwritten, everywhere, endTag?_tagName h.wellFormed.name,
    look_of_not_mem skip_endTags (not_mem_of_isTagName h.wellFormed.name),
    look_of_assignments skip_endTags hassignments,
    look_of_not_mem skip_endTags (not_mem_of_isGap h.wellFormed.last),
    look_of_not_mem skip_endTags (by decide)]
  rfl

theorem endTags_closing {name blanks : List Char} (h : (Stretch.closing name blanks).Plain)
    (rest : List Char) :
    everywhere endTag? (Passage.endTag name blanks ++ rest) = name :: everywhere endTag? rest := by
  have hwritten : Passage.endTag name blanks ++ rest =
      '<' :: ('/' :: (name ++ (blanks ++ ['>'])) ++ rest) := by
    simp [Passage.endTag]
  have hinside := not_mem_closing h
  obtain ⟨htag, hname, hblanks⟩ := h
  have hstop : ∀ d ∈ (blanks ++ '>' :: rest).head?, isNameChar d = false := by
    cases blanks with
    | nil =>
      intro d hd
      cases hd
      rfl
    | cons b blanks =>
      intro d hd
      cases hd
      exact not_letter_of_blank (hblanks b List.mem_cons_self)
  have hfound : endTag? ('<' :: ('/' :: (name ++ (blanks ++ ['>'])) ++ rest)) = some name := by
    have hslash : '/' :: (name ++ (blanks ++ ['>'])) ++ rest =
        '/' :: (name ++ (blanks ++ '>' :: rest)) := by simp
    rw [hslash, endTag?, Text.skipBlanks_of_not_blank rfl]
    simp only [skipBlanks_tagName htag, name?_letters htag hname hstop]
  rw [hwritten, everywhere, hfound, look_of_not_mem skip_endTags hinside]
  rfl

theorem endTags_stretches {m : List Stretch} (h : ∀ p ∈ m, p.Plain) :
    everywhere endTag? (m.flatMap Stretch.write) = m.filterMap Stretch.closing? := by
  induction m with
  | nil => rfl
  | cons p m ih =>
    obtain ⟨hp, hm⟩ := List.forall_mem_cons.mp h
    rw [List.flatMap_cons]
    cases p with
    | quiet content =>
      rw [Stretch.write, look_of_quiet skip_endTags hp, ih hm]
      rfl
    | opening t =>
      rw [Stretch.write, endTags_opening hp, ih hm]
      rfl
    | closing name blanks =>
      rw [Stretch.write, endTags_closing hp, ih hm]
      rfl

/-- The names that are found in a plain text are those of its tags. -/
theorem found_stretches {m : List Stretch} (h : ∀ p ∈ m, p.Plain) :
    foundTags (m.flatMap Stretch.write) = Stretch.tagNames m ∧
      foundAttributes (m.flatMap Stretch.write) = Stretch.attributeNames m := by
  have hopenings : ∀ t ∈ m.filterMap Stretch.opening?, t.Plain := by
    intro t ht
    obtain ⟨p, hp, ho⟩ := List.mem_filterMap.mp ht
    cases p with
    | opening u =>
      cases ho
      exact h _ hp
    | _ => cases ho
  refine ⟨?_, ?_⟩
  · rw [foundTags, startTags_stretches h, endTags_stretches h, Stretch.tagNames, List.map_map]
    rfl
  · rw [foundAttributes, startTags_stretches h, List.flatMap_map]
    exact List.flatMap_congr fun t ht => attributes_heldIn (hopenings t ht)

end Spelling

end Mailgrid.Markup
