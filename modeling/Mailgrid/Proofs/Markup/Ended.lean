import Mailgrid.Proofs.Markup.Constructs
import Mailgrid.Proofs.VoidElement.Names

/-!
# Constructs up to a `>`

What is read up to a `>` is read so whatever stands behind it. Only a quote that
is never closed lets a tag look further: it opens no value, and so it matters
whether the same quote comes anywhere behind the tag.
-/

namespace Mailgrid.Markup

open Mailgrid.Text (isBlank skipBlanks cutAt cutAtChar skipBlanks_append_cons)

/-- Two texts with the same kinds of quotes in them. -/
def SameQuotes (s t : List Char) : Prop :=
  ∀ q, OpenTag.isQuote q = true → (q ∈ s ↔ q ∈ t)

-- ---------------------------------------------------------------------------
-- Start tags

namespace OpenTag

variable {s t u : List Char}

theorem isGap_close (rest : List Char) : isGap '>' rest = false := by
  have hblank : isBlank '>' = false := rfl
  simp [isGap, hblank]

theorem isGap_append (c : Char) (u s t : List Char) :
    isGap c (u ++ '>' :: s) = isGap c (u ++ '>' :: t) := by
  cases u <;> rfl

theorem skipGaps_append (u s t : List Char) : ∃ r, skipGaps (u ++ '>' :: s) = r ++ '>' :: s ∧
    skipGaps (u ++ '>' :: t) = r ++ '>' :: t := by
  induction u with
  | nil => exact ⟨[], by simp [skipGaps, isGap_close], by simp [skipGaps, isGap_close]⟩
  | cons c u ih =>
    simp only [List.cons_append, skipGaps, isGap_append c u t s]
    split
    · exact ih
    · exact ⟨c :: u, rfl, rfl⟩

theorem startsWithGap_append (u s t : List Char) :
    startsWithGap (u ++ '>' :: s) = startsWithGap (u ++ '>' :: t) := by
  cases u with
  | nil => simp [startsWithGap, isGap_close]
  | cons c u => exact isGap_append c u s t

/-- A value that ends before the `>`, the same before `s` and before `t`. -/
def Value.Same (s t : List Char) (v w : Value) : Prop :=
  v.text = w.text ∧ v.open_ = w.open_ ∧ ∃ r, v.rest = r ++ '>' :: s ∧ w.rest = r ++ '>' :: t

theorem same_unquoted (u s t : List Char) :
    (unquoted (u ++ '>' :: s)).Same s t (unquoted (u ++ '>' :: t)) := by
  have hstop : isUnquotedChar '>' = false := rfl
  simp only [unquoted, Value.Same, Text.takeWhile_append_cons hstop,
    Text.dropWhile_append_cons hstop, true_and]
  exact ⟨_, rfl, rfl⟩

/-- A value is read alike before both texts, unless it reaches into the first one. -/
theorem valueAt?_append (hquotes : SameQuotes s t) (signs : Nat) (padded : Bool) (u : List Char) :
    (∃ v, valueAt? signs padded (u ++ '>' :: s) = some v ∧ v.rest.length < s.length) ∨
      Option.Rel (Value.Same s t) (valueAt? signs padded (u ++ '>' :: s))
        (valueAt? signs padded (u ++ '>' :: t)) := by
  cases u with
  | nil => exact .inr (.some (same_unquoted [] s t))
  | cons q u =>
    simp only [List.cons_append, valueAt?]
    split
    · rename_i hq
      by_cases hu : q ∈ u
      · right
        obtain ⟨before, after, rfl, hb⟩ := List.eq_append_cons_of_mem hu
        simp only [List.append_assoc, List.cons_append, Text.cutAtChar_append hb]
        exact .some ⟨rfl, rfl, after, rfl, rfl⟩
      · have hne : q ≠ '>' := by
          rintro rfl
          cases hq
        by_cases hs : q ∈ s
        · left
          obtain ⟨before, after, rfl, hb⟩ := List.eq_append_cons_of_mem hs
          have hcut : cutAtChar q (u ++ '>' :: (before ++ q :: after)) =
              some (u ++ '>' :: before, after) := by
            rw [← List.cons_append, ← List.append_assoc]
            exact Text.cutAtChar_append (by simp [hu, hne, hb]) after
          simp only [hcut, Option.some.injEq, exists_eq_left', List.length_append,
            List.length_cons]
          omega
        · right
          have ht : q ∉ t := fun h => hs ((hquotes q hq).mpr h)
          have hnone {x : List Char} (hx : q ∉ x) : cutAtChar q (u ++ '>' :: x) = none :=
            Text.cutAtChar_of_not_mem (by simp [hu, hne, hx])
          simp only [hnone hs, hnone ht]
          split
          · exact .some ⟨rfl, rfl, q :: u, rfl, rfl⟩
          · split
            · obtain ⟨htext, -, hrest⟩ := same_unquoted (q :: u) s t
              exact .some ⟨congrArg ('=' :: ·) htext, rfl, hrest⟩
            · exact .none
    · exact .inr (.some (same_unquoted (q :: u) s t))

theorem value?_append (hquotes : SameQuotes s t) (u : List Char) :
    (∃ v, value? (u ++ '>' :: s) = some v ∧ v.rest.length < s.length) ∨
      Option.Rel (Value.Same s t) (value? (u ++ '>' :: s)) (value? (u ++ '>' :: t)) := by
  have hblank : isBlank '>' = false := rfl
  have hsign : ('>' == '=') = false := rfl
  simp only [value?, skipBlanks_append_cons hblank,
    Text.takeWhile_append_cons (p := (· == '=')) hsign,
    Text.dropWhile_append_cons (p := (· == '=')) hsign]
  split
  · exact .inr .none
  · have hhead {after : List Char} : (after ++ '>' :: s).head? = (after ++ '>' :: t).head? := by
      cases after <;> rfl
    rw [hhead]
    exact valueAt?_append hquotes _ _ _

/-- An attribute that ends before the `>`, the same before `s` and before `t`. -/
def Attribute.Same (s t : List Char) (a b : Attribute) : Prop :=
  a.name = b.name ∧ a.value.Same s t b.value

theorem attribute?_append (hquotes : SameQuotes s t) (u : List Char) :
    (∃ a, attribute? (u ++ '>' :: s) = some a ∧ a.value.rest.length < s.length) ∨
      Option.Rel (Attribute.Same s t) (attribute? (u ++ '>' :: s))
        (attribute? (u ++ '>' :: t)) := by
  have hstop : isAttributeChar '>' = false := rfl
  cases u with
  | nil => exact .inr .none
  | cons c u =>
    simp only [List.cons_append, attribute?, Text.takeWhile_append_cons hstop,
      Text.dropWhile_append_cons hstop]
    split
    · exact .inr .none
    · obtain ⟨v, hv, hlength⟩ | hsame :=
        value?_append hquotes (u.dropWhile isAttributeChar)
      · simp only [hv]
        exact .inl ⟨_, rfl, hlength⟩
      · right
        generalize value? (u.dropWhile isAttributeChar ++ '>' :: s) = x at hsame
        generalize value? (u.dropWhile isAttributeChar ++ '>' :: t) = y at hsame
        cases hsame with
        | some hvalue => exact .some ⟨rfl, hvalue⟩
        | none => exact .some ⟨rfl, rfl, rfl, _, rfl, rfl⟩

/-- What counts of the attributes of a tag. -/
def Attribute.parts (a : Attribute) : List Char × List Char :=
  (a.name, a.value.text)

theorem attributesOf_append (hquotes : SameQuotes s t) (touching : Bool) (u : List Char) :
    (attributesOf touching (u ++ '>' :: s)).2.length < s.length ∨
      ((attributesOf touching (u ++ '>' :: s)).1.map (·.parts) =
          (attributesOf touching (u ++ '>' :: t)).1.map (·.parts) ∧
        ∃ r, (attributesOf touching (u ++ '>' :: s)).2 = r ++ '>' :: s ∧
          (attributesOf touching (u ++ '>' :: t)).2 = r ++ '>' :: t) := by
  induction hn : u.length using Nat.strongRecOn generalizing u touching with
  | ind n ih =>
    subst hn
    cases touching with
    | false =>
      have hnone (x : List Char) : attributesOf false x = ([], x) := by
        rw [attributesOf, if_neg Bool.false_ne_true]
      rw [hnone, hnone]
      exact .inr ⟨rfl, u, rfl, rfl⟩
    | true =>
      obtain ⟨a, ha, hlength⟩ | hsame := attribute?_append hquotes u
      · left
        rw [attributesOf_of_some ha]
        exact Nat.lt_of_le_of_lt (length_attributesOf_le _ _)
          (Nat.lt_of_le_of_lt (length_skipGaps_le _) hlength)
      · cases ha : attribute? (u ++ '>' :: s) with
        | none =>
          rw [ha] at hsame
          have hb : attribute? (u ++ '>' :: t) = none := by
            generalize attribute? (u ++ '>' :: t) = y at hsame ⊢
            cases hsame
            rfl
          rw [attributesOf_of_none ha, attributesOf_of_none hb]
          exact .inr ⟨rfl, u, rfl, rfl⟩
        | some a =>
          rw [ha] at hsame
          obtain ⟨b, hb, hname, htext, hopen, r, hr, hr'⟩ : ∃ b,
              attribute? (u ++ '>' :: t) = some b ∧ a.Same s t b := by
            generalize attribute? (u ++ '>' :: t) = y at hsame
            cases hsame with
            | some hsame => exact ⟨_, rfl, hsame⟩
          obtain ⟨g, hg, hg'⟩ := skipGaps_append r s t
          have hlength : g.length < u.length := by
            have hread := length_lt_of_attribute? ha
            have hgaps := length_skipGaps_le a.value.rest
            rw [hr, hg] at hgaps
            rw [hr] at hread
            simp only [List.length_append] at hread hgaps
            omega
          have hmore := ih g.length hlength (a.value.open_ || startsWithGap a.value.rest) g rfl
          have htouching : (b.value.open_ || startsWithGap b.value.rest) =
              (a.value.open_ || startsWithGap a.value.rest) := by
            rw [hopen, hr, hr', startsWithGap_append r t s]
          rw [attributesOf_of_some ha, attributesOf_of_some hb, htouching, hr', hg']
          rw [← hg, ← hr] at hmore
          obtain hshort | ⟨hparts, hrest⟩ := hmore
          · exact .inl hshort
          · refine .inr ⟨?_, hrest⟩
            rw [List.map_cons, List.map_cons, hparts, Attribute.parts, Attribute.parts, hname,
              htext]

/-- What a tag is read as, by its name, what counts of its attributes, and what follows them. -/
def readingOf (name : List Char) (parts : List (List Char × List Char)) (ending : List Char) :
    Reading :=
  let isRefused := parts.any fun p => Reference.holdsTooLong p.2
  let pairs := parts.map fun p =>
    (String.ofList (Text.lower p.1), String.ofList (Reference.resolve p.2))
  let tag (closed : Bool) : OpenTag := ⟨String.ofList (Text.lower name), pairs, closed⟩
  match ending with
  | [] => .unfinished
  | '>' :: rest => if isRefused then .refused else .complete (tag false) rest
  | '/' :: '>' :: rest => if isRefused then .refused else .complete (tag true) rest
  | c :: rest =>
    if c.isAlpha || c == '=' then .unfinished
    else if isRefused then .refused
    else .broken (c :: rest)

/-- May an attribute begin right behind a name? -/
def touches (name behind : List Char) : Bool :=
  startsWithGap behind || (name.getLast?.map fun c => isQuote c || isBlank c).getD false

theorem read_eq (x : List Char) : read x =
    readingOf (x.takeWhile isNameChar)
      ((attributesOf (touches (x.takeWhile isNameChar) (x.dropWhile isNameChar))
        (skipGaps (x.dropWhile isNameChar))).1.map (·.parts))
      (attributesOf (touches (x.takeWhile isNameChar) (x.dropWhile isNameChar))
        (skipGaps (x.dropWhile isNameChar))).2 := by
  simp only [readingOf, List.any_map, List.map_map]
  rfl

theorem ending_of_readingOf {name ending rest : List Char} {parts : List (List Char × List Char)}
    {tag : OpenTag} (h : readingOf name parts ending = .complete tag rest) :
    ending = '>' :: rest ∨ ending = '/' :: '>' :: rest := by
  simp only [readingOf] at h
  split at h
  · cases h
  · split at h
    · cases h
    · cases h
      exact .inl rfl
  · split at h
    · cases h
    · cases h
      exact .inr rfl
  · split at h
    · cases h
    · split at h <;> cases h

theorem ending_of_broken {name ending rest : List Char} {parts : List (List Char × List Char)}
    (h : readingOf name parts ending = .broken rest) : ending = rest := by
  simp only [readingOf] at h
  split at h
  · cases h
  · split at h <;> cases h
  · split at h <;> cases h
  · split at h
    · cases h
    · split at h
      · cases h
      · cases h
        rfl

theorem readingOf_append {name r : List Char} {parts : List (List Char × List Char)}
    {tag : OpenTag} (h : readingOf name parts (r ++ '>' :: s) = .complete tag s) (t : List Char) :
    readingOf name parts (r ++ '>' :: t) = .complete tag t := by
  have hr : r = [] ∨ r = ['/'] := by
    have hcancel {u : List Char} (he : r ++ '>' :: s = u ++ '>' :: s) : r = u :=
      List.append_cancel_right he
    exact (ending_of_readingOf h).imp (hcancel (u := [])) (hcancel (u := ['/']))
  rcases hr with rfl | rfl
  all_goals
    simp only [readingOf, List.cons_append, List.nil_append] at h ⊢
    split at h
    · cases h
    · rename_i hfits
      cases h
      rw [if_neg hfits]

/-- A start tag that is complete before one text is so before any other with its quotes. -/
theorem read_append (hquotes : SameQuotes s t) {tag : OpenTag}
    (h : read (u ++ '>' :: s) = .complete tag s) : read (u ++ '>' :: t) = .complete tag t := by
  have hstop : isNameChar '>' = false := rfl
  rw [read_eq, Text.takeWhile_append_cons hstop, Text.dropWhile_append_cons hstop] at h ⊢
  obtain ⟨g, hg, hg'⟩ := skipGaps_append (u.dropWhile isNameChar) s t
  have htouches : touches (u.takeWhile isNameChar) (u.dropWhile isNameChar ++ '>' :: t) =
      touches (u.takeWhile isNameChar) (u.dropWhile isNameChar ++ '>' :: s) := by
    rw [touches, touches, startsWithGap_append _ t s]
  rw [htouches, hg']
  rw [hg] at h
  obtain hshort | ⟨hparts, r, hr, hr'⟩ := attributesOf_append hquotes
    (touches (u.takeWhile isNameChar) (u.dropWhile isNameChar ++ '>' :: s)) g
  · rcases ending_of_readingOf h with he | he <;>
    · rw [he] at hshort
      simp only [List.length_cons] at hshort
      omega
  · rw [← hparts, hr']
    rw [hr] at h
    exact readingOf_append h t

theorem read_ne_broken (u s : List Char) : read (u ++ '>' :: s) ≠ .broken s := by
  have hstop : isNameChar '>' = false := rfl
  intro h
  rw [read_eq, Text.takeWhile_append_cons hstop, Text.dropWhile_append_cons hstop] at h
  obtain ⟨g, hg, -⟩ := skipGaps_append (u.dropWhile isNameChar) s s
  rw [hg] at h
  have hending := ending_of_broken h
  obtain hshort | ⟨-, r, hr, -⟩ := attributesOf_append (fun _ _ => Iff.rfl)
    (touches (u.takeWhile isNameChar) (u.dropWhile isNameChar ++ '>' :: s)) g
  · rw [hending] at hshort
    exact absurd hshort (Nat.lt_irrefl _)
  · have hlength := congrArg List.length (hending.symm.trans hr)
    simp only [List.length_append, List.length_cons] at hlength
    omega

end OpenTag

-- ---------------------------------------------------------------------------
-- Ends

namespace Token

variable {s t u : List Char} {α : Type} {look : List Char → Option α} {a b : α}

/-- What comes to `a` right before one text comes to `b` right before the other, and what is not
there before the one is not there before the other. -/
structure Moves (look : List Char → Option α) (s t : List Char) (a b : α) : Prop where
  none_ : ∀ v, look (v ++ '>' :: s) = none → look (v ++ '>' :: t) = none
  some_ : ∀ v, look (v ++ '>' :: s) = some a → look (v ++ '>' :: t) = some b

theorem cutAt_moves (moves : Moves look s t a b) (hclose : look ('>' :: s) = none)
    (hpart : ∀ inner, cutAt look s ≠ some (inner, a)) {inner : List Char}
    (h : cutAt look (u ++ '>' :: s) = some (inner, a)) :
    cutAt look (u ++ '>' :: t) = some (inner, b) := by
  induction u generalizing inner with
  | nil =>
    rw [List.nil_append, cutAt, hclose] at h
    obtain ⟨⟨before, found⟩, hcut, he⟩ := Option.map_eq_some_iff.mp h
    cases he
    exact absurd hcut (hpart before)
  | cons c u ih =>
    rw [List.cons_append, cutAt] at h ⊢
    split at h
    · rename_i hfound
      cases h
      have hmoved := moves.some_ (c :: u) hfound
      rw [List.cons_append] at hmoved
      rw [hmoved]
    · rename_i hfound
      have hmoved := moves.none_ (c :: u) hfound
      rw [List.cons_append] at hmoved
      obtain ⟨⟨before, found⟩, hcut, he⟩ := Option.map_eq_some_iff.mp h
      cases he
      rw [hmoved, ih hcut]
      rfl

/-- What is looked for behind one character. -/
def behind (c : Char) (look : List Char → Option α) : List Char → Option α
  | d :: s => if d = c then look s else none
  | [] => none

theorem moves_close (s t : List Char) : Moves (behind '>' some) s t s t where
  none_ v h := by
    cases v with
    | nil => cases h
    | cons d v =>
      simp only [List.cons_append, behind] at h ⊢
      split at h
      · cases h
      · rename_i hd
        rw [if_neg hd]
  some_ v h := by
    cases v with
    | nil => rfl
    | cons d v =>
      simp only [List.cons_append, behind] at h
      split at h
      · have hlength := congrArg List.length (Option.some.inj h)
        simp only [List.length_append, List.length_cons] at hlength
        omega
      · cases h

theorem Moves.behind (moves : Moves look s t a b) {c : Char} (hc : c ≠ '>') :
    Moves (behind c look) s t a b where
  none_ v h := by
    cases v with
    | nil => exact if_neg hc.symm
    | cons d v =>
      simp only [List.cons_append, Token.behind] at h ⊢
      split
      · rename_i hd
        rw [if_pos hd] at h
        exact moves.none_ v h
      · rfl
  some_ v h := by
    cases v with
    | nil =>
      rw [List.nil_append, Token.behind, if_neg hc.symm] at h
      cases h
    | cons d v =>
      simp only [List.cons_append, Token.behind] at h ⊢
      split at h
      · rename_i hd
        rw [if_pos hd]
        exact moves.some_ v h
      · cases h

theorem Moves.blanks (moves : Moves look s t a b) :
    Moves (fun s => look (skipBlanks s)) s t a b where
  none_ v h := by
    have hblank : isBlank '>' = false := rfl
    rw [skipBlanks_append_cons hblank] at h ⊢
    exact moves.none_ _ h
  some_ v h := by
    have hblank : isBlank '>' = false := rfl
    rw [skipBlanks_append_cons hblank] at h ⊢
    exact moves.some_ _ h

theorem length_of_behind {look : List Char → Option (List Char)} {c : Char} {rest : List Char}
    (hlook : ∀ {s rest}, look s = some rest → rest.length ≤ s.length)
    (h : behind c look s = some rest) : rest.length < s.length := by
  cases s with
  | nil => cases h
  | cons d s =>
    rw [behind] at h
    split at h
    · exact Nat.lt_succ_of_le (hlook h)
    · cases h

theorem not_cutAt_self {look : List Char → Option (List Char)}
    (hlook : ∀ {s rest}, look s = some rest → rest.length < s.length) (s inner : List Char) :
    cutAt look s ≠ some (inner, s) := by
  intro h
  obtain ⟨after, hs, hfound⟩ := Text.look_of_cutAt h
  have hshorter := hlook hfound
  have hlength := congrArg List.length hs
  simp only [List.length_append] at hlength
  omega

-- ---------------------------------------------------------------------------
-- Ends of comments and marked sections

theorem close?_eq (s : List Char) : close? s = behind '>' some (skipBlanks s) := by
  rw [close?]
  cases skipBlanks s with
  | nil => rfl
  | cons c rest =>
    by_cases hc : c = '>'
    · subst hc
      rfl
    · simp [behind, hc]

theorem commentEnd?_eq (s : List Char) : commentEnd? s = behind '-' (behind '-' close?) s := by
  match s with
  | [] => rfl
  | [c] => simp [commentEnd?, behind]
  | c :: d :: s =>
    by_cases hcd : c = '-' ∧ d = '-'
    · obtain ⟨rfl, rfl⟩ := hcd
      rfl
    · rw [commentEnd?_of_ne hcd]
      simp only [behind]
      split
      · rename_i hc
        exact (if_neg fun hd => hcd ⟨hc, hd⟩).symm
      · rfl

theorem conditionalEnd?_eq (s : List Char) : conditionalEnd? s = behind ']' close? s := by
  cases s with
  | nil => rfl
  | cons c s =>
    by_cases hc : c = ']'
    · subst hc
      rfl
    · rw [conditionalEnd?_of_ne hc, behind, if_neg hc]

theorem keywordEnd?_eq (s : List Char) :
    keywordEnd? s = behind ']' (fun s => conditionalEnd? (skipBlanks s)) s := by
  cases s with
  | nil => rfl
  | cons c s =>
    by_cases hc : c = ']'
    · subst hc
      rfl
    · rw [keywordEnd?_of_ne hc, behind, if_neg hc]

theorem moves_close? (s t : List Char) : Moves close? s t s t := by
  rw [funext close?_eq]
  exact (moves_close s t).blanks

theorem moves_commentEnd? (s t : List Char) : Moves commentEnd? s t s t := by
  rw [funext commentEnd?_eq]
  exact ((moves_close? s t).behind (by decide)).behind (by decide)

theorem moves_conditionalEnd? (s t : List Char) : Moves conditionalEnd? s t s t := by
  rw [funext conditionalEnd?_eq]
  exact (moves_close? s t).behind (by decide)

theorem moves_keywordEnd? (s t : List Char) : Moves keywordEnd? s t s t := by
  rw [funext keywordEnd?_eq]
  exact (moves_conditionalEnd? s t).blanks.behind (by decide)

theorem length_lt_of_close? {rest : List Char} (h : close? s = some rest) :
    rest.length < s.length := by
  rw [close?_eq] at h
  refine Nat.lt_of_lt_of_le (length_of_behind ?_ h) (Text.length_skipBlanks_le s)
  rintro s _ ⟨⟩
  exact Nat.le_refl _

theorem length_lt_of_commentEnd? {rest : List Char} (h : commentEnd? s = some rest) :
    rest.length < s.length := by
  rw [commentEnd?_eq] at h
  exact length_of_behind (fun h => Nat.le_of_lt (length_of_behind
    (fun h => Nat.le_of_lt (length_lt_of_close? h)) h)) h

theorem length_lt_of_conditionalEnd? {rest : List Char} (h : conditionalEnd? s = some rest) :
    rest.length < s.length := by
  rw [conditionalEnd?_eq] at h
  exact length_of_behind (fun h => Nat.le_of_lt (length_lt_of_close? h)) h

theorem length_lt_of_keywordEnd? {rest : List Char} (h : keywordEnd? s = some rest) :
    rest.length < s.length := by
  rw [keywordEnd?_eq] at h
  exact length_of_behind (fun h => Nat.le_trans (Nat.le_of_lt (length_lt_of_conditionalEnd? h))
    (Text.length_skipBlanks_le _)) h

theorem sectionEnd?_cases {name : String} {look : List Char → Option (List Char)}
    (h : sectionEnd? name = some look) : look = keywordEnd? ∨ look = conditionalEnd? := by
  unfold sectionEnd? at h
  split at h
  · exact .inl (Option.some.inj h).symm
  · split at h
    · exact .inr (Option.some.inj h).symm
    · cases h

theorem cutAt_commentEnd?_append {inner : List Char}
    (h : cutAt commentEnd? (u ++ '>' :: s) = some (inner, s)) (t : List Char) :
    cutAt commentEnd? (u ++ '>' :: t) = some (inner, t) := by
  refine cutAt_moves (moves_commentEnd? s t) ?_ (not_cutAt_self length_lt_of_commentEnd? s) h
  rw [commentEnd?_eq]
  rfl

theorem cutAt_sectionEnd?_append {name : String} {look : List Char → Option (List Char)}
    (hname : sectionEnd? name = some look) {inner : List Char}
    (h : cutAt look (u ++ '>' :: s) = some (inner, s)) (t : List Char) :
    cutAt look (u ++ '>' :: t) = some (inner, t) := by
  obtain rfl | rfl := sectionEnd?_cases hname
  · exact cutAt_moves (moves_keywordEnd? s t) (keywordEnd?_of_ne (by decide) s)
      (not_cutAt_self length_lt_of_keywordEnd? s) h
  · exact cutAt_moves (moves_conditionalEnd? s t) (conditionalEnd?_of_ne (by decide) s)
      (not_cutAt_self length_lt_of_conditionalEnd? s) h

-- ---------------------------------------------------------------------------
-- Ends of literal elements

theorem not_isForeign_of_literal {name : List Char} (h : isLiteralElement name = true) :
    ∀ w ∈ name, VoidElement.isForeign w = false := by
  simp only [isLiteralElement, Bool.or_eq_true, beq_iff_eq] at h
  rcases h with rfl | rfl <;> decide

/-- The end tag of a literal element, behind its `</`. -/
def nameEnd? (name s : List Char) : Option (List Char × List Char) :=
  match Text.spelling? name (skipBlanks s) with
  | some (spelled, after) => (close? after).map fun rest => (spelled, rest)
  | none => none

theorem literalEnd?_eq (name s : List Char) :
    literalEnd? name s = behind '<' (behind '/' (nameEnd? name)) s := by
  match s with
  | [] => rfl
  | [c] => simp [literalEnd?, behind]
  | c :: d :: s =>
    by_cases hcd : c = '<' ∧ d = '/'
    · obtain ⟨rfl, rfl⟩ := hcd
      simp only [literalEnd?, behind, if_true, nameEnd?, close?]
      cases Text.spelling? name (skipBlanks s) with
      | none => rfl
      | some found =>
        dsimp only
        generalize skipBlanks found.2 = after
        cases after with
        | nil => rfl
        | cons e after =>
          by_cases he : e = '>'
          · subst he
            rfl
          · simp [he]
    · have hnone : literalEnd? name (c :: d :: s) = none := by
        unfold literalEnd?
        split
        · rename_i he
          cases he
          exact absurd ⟨rfl, rfl⟩ hcd
        · rfl
      rw [hnone]
      simp only [behind]
      split
      · rename_i hc
        exact (if_neg fun hd => hcd ⟨hc, hd⟩).symm
      · rfl

theorem moves_nameEnd? {name : List Char} (h : isLiteralElement name = true)
    (s t spelled : List Char) : Moves (nameEnd? name) s t (spelled, s) (spelled, t) := by
  have hblank : isBlank '>' = false := rfl
  have hends (x : List Char) : VoidElement.EndsName ('>' :: x) := by
    rintro _ ⟨⟩
    rfl
  have hspelling (v x : List Char) := @VoidElement.spelling?_endsName ('>' :: x) v name
    (fun w hw c hc => VoidElement.not_isLike_of_isForeign hc (not_isForeign_of_literal h w hw))
    (hends x)
  constructor <;> intro v hv
  all_goals
    rw [nameEnd?, skipBlanks_append_cons hblank, hspelling] at hv ⊢
    cases hname : Text.spelling? name (skipBlanks v) with
    | none =>
      rw [hname] at hv
      first | rfl | cases hv
    | some found =>
      rw [hname] at hv
      obtain ⟨name, after⟩ := found
      simp only [Option.map_some, Option.map_eq_none_iff, Option.map_eq_some_iff,
        Prod.mk.injEq] at hv ⊢
      first
        | exact (moves_close? s t).none_ after hv
        | obtain ⟨rest, hclose, rfl, rfl⟩ := hv
          exact ⟨t, (moves_close? rest t).some_ after hclose, rfl, rfl⟩

theorem cutAt_literalEnd?_append {name inner spelled : List Char}
    (hname : isLiteralElement name = true)
    (h : cutAt (literalEnd? name) (u ++ '>' :: s) = some (inner, spelled, s)) (t : List Char) :
    cutAt (literalEnd? name) (u ++ '>' :: t) = some (inner, spelled, t) := by
  have hmoves : Moves (literalEnd? name) s t (spelled, s) (spelled, t) := by
    rw [funext (literalEnd?_eq name)]
    exact ((moves_nameEnd? hname s t spelled).behind (by decide)).behind (by decide)
  refine cutAt_moves hmoves ?_ (fun inner hcut => ?_) h
  · rw [literalEnd?_eq]
    rfl
  · exact absurd (length_of_cut_literalEnd? hcut) (Nat.lt_irrefl _)

-- ---------------------------------------------------------------------------
-- Constructs

theorem upToClose_append {tokens : List Char → List Token} {found : List Token}
    {literal : Option (List Char)}
    (h : upToClose tokens (u ++ '>' :: s) = .read found literal s) :
    '>' ∉ u ∧ found = tokens u ∧ literal = none := by
  have hclose : '>' ∉ u := by
    intro hm
    obtain ⟨before, after, rfl, hb⟩ := List.eq_append_cons_of_mem hm
    rw [upToClose, List.append_assoc, List.cons_append, Text.cutAtChar_append hb] at h
    have hlength := congrArg List.length (Construct.read.inj h).2.2
    simp only [List.length_append, List.length_cons] at hlength
    omega
  rw [upToClose, Text.cutAtChar_append hclose] at h
  cases h
  exact ⟨hclose, rfl, rfl⟩

theorem upToClose_of_not_mem {tokens : List Char → List Token} (h : '>' ∉ u) (t : List Char) :
    upToClose tokens (u ++ '>' :: t) = .read (tokens u) none t := by
  rw [upToClose, Text.cutAtChar_append h]

theorem isDocType_of_mem (h : '>' ∈ s.take 7) : isDocType s = false := by
  cases hdoc : isDocType s with
  | false => rfl
  | true =>
    have hlower := List.mem_map_of_mem (f := Char.toLower) h
    rw [isDocType, beq_iff_eq] at hdoc
    rw [hdoc] at hlower
    exact absurd hlower (by decide)

theorem isDocType_append (u s t : List Char) :
    isDocType (u ++ '>' :: s) = isDocType (u ++ '>' :: t) := by
  rcases Nat.lt_or_ge u.length 7 with hlt | hge
  · have hmem (x : List Char) : '>' ∈ (u ++ '>' :: x).take 7 := by
      obtain ⟨n, hn⟩ : ∃ n, 7 - u.length = n + 1 := ⟨6 - u.length, by omega⟩
      rw [List.take_append, hn, List.take_succ_cons]
      simp
    rw [isDocType_of_mem (hmem s), isDocType_of_mem (hmem t)]
  · rw [isDocType, isDocType, List.take_append_of_le_length hge, List.take_append_of_le_length hge]

theorem declarationAt_other (hcomment : ∀ rest, s ≠ '-' :: '-' :: rest)
    (hsection : ∀ rest, s ≠ '[' :: rest) :
    declarationAt s = upToClose (fun inner =>
      [if isDocType s then .docType (String.ofList inner) else .comment (String.ofList inner)]) s := by
  unfold declarationAt
  split
  · exact absurd rfl (hcomment _)
  · exact absurd rfl (hsection _)
  · rfl

variable {tokens : List Token} {literal : Option (List Char)}

theorem commentAt_append (h : commentAt (u ++ '>' :: s) = .read tokens literal s)
    (t : List Char) : commentAt (u ++ '>' :: t) = .read tokens literal t := by
  rw [commentAt] at h ⊢
  split at h
  · rename_i hcut
    cases h
    rw [cutAt_commentEnd?_append hcut t]
  · cases h

theorem sectionAt_close (u s : List Char) : sectionAt (u ++ '>' :: s) =
    if !startsWithLetter (u ++ ['>']) then .refused .refusedMarkup
    else
      match sectionEnd? (String.ofList ((u.takeWhile isSectionNameChar).map Char.toLower)) with
      | none => .refused .refusedMarkup
      | some ending =>
        match cutAt ending (u ++ '>' :: s) with
        | some (inner, rest) => .read [.marked (String.ofList inner)] none rest
        | none => .unfinished := by
  have hstop : isSectionNameChar '>' = false := by decide
  have hblank : isBlank '>' = false := rfl
  have hletter : startsWithLetter (u ++ '>' :: s) = startsWithLetter (u ++ ['>']) := by
    cases u <;> rfl
  have hfull (v : List Char) : ¬(v ++ '>' :: s).isEmpty = true := by simp
  rw [sectionAt, if_neg (hfull u), hletter, Text.takeWhile_append_cons hstop,
    Text.dropWhile_append_cons hstop, skipBlanks_append_cons hblank]
  exact congrArg (ite _ _) (if_neg (hfull _))

theorem sectionAt_append (h : sectionAt (u ++ '>' :: s) = .read tokens literal s)
    (t : List Char) : sectionAt (u ++ '>' :: t) = .read tokens literal t := by
  rw [sectionAt_close] at h ⊢
  split at h
  · cases h
  · rename_i hstarts
    rw [if_neg hstarts]
    cases hname : sectionEnd? (String.ofList ((u.takeWhile isSectionNameChar).map Char.toLower)) with
    | none =>
      rw [hname] at h
      cases h
    | some look =>
      simp only [hname] at h
      split at h
      · rename_i hcut
        cases h
        simp only [cutAt_sectionEnd?_append hname hcut t]
      · cases h

theorem declarationAt_append (h : declarationAt (u ++ '>' :: s) = .read tokens literal s)
    (t : List Char) : declarationAt (u ++ '>' :: t) = .read tokens literal t := by
  by_cases hcomment : ∃ v, u = '-' :: '-' :: v
  · obtain ⟨v, rfl⟩ := hcomment
    exact commentAt_append h t
  · by_cases hsection : ∃ v, u = '[' :: v
    · obtain ⟨v, rfl⟩ := hsection
      exact sectionAt_append h t
    · have hother (x : List Char) : (∀ rest, u ++ '>' :: x ≠ '-' :: '-' :: rest) ∧
          ∀ rest, u ++ '>' :: x ≠ '[' :: rest := by
        match u with
        | [] => exact ⟨nofun, nofun⟩
        | [c] => exact ⟨nofun, fun rest he => hsection ⟨[], by cases he; rfl⟩⟩
        | c :: d :: v =>
          exact ⟨fun rest he => hcomment ⟨v, by cases he; rfl⟩,
            fun rest he => hsection ⟨d :: v, by cases he; rfl⟩⟩
      rw [declarationAt_other (hother s).1 (hother s).2] at h
      rw [declarationAt_other (hother t).1 (hother t).2]
      obtain ⟨hclose, rfl, rfl⟩ := upToClose_append h
      rw [upToClose_of_not_mem hclose, isDocType_append u t s]

theorem startTagAt_append (hquotes : SameQuotes s t)
    (h : startTagAt (u ++ '>' :: s) = .read tokens literal s) :
    startTagAt (u ++ '>' :: t) = .read tokens literal t := by
  rw [startTagAt] at h ⊢
  split at h
  · rename_i hread
    cases h
    rw [OpenTag.read_append hquotes hread]
  · cases h
  · cases h
  · rename_i hread
    cases h
    exact absurd hread (OpenTag.read_ne_broken u s)

theorem constructAt_of_other {c : Char} (hc : c ∉ ['/', '!', '?']) (s : List Char) :
    constructAt (c :: s) =
      if c.isAlpha then startTagAt (c :: s) else .read [textOf ['<']] none (c :: s) := by
  simp only [List.mem_cons, List.not_mem_nil, or_false, not_or] at hc
  rw [constructAt]
  all_goals simp_all

/-- A construct that ends in a `>` is read alike whatever follows it, but for its quotes. -/
theorem constructAt_append (hquotes : SameQuotes s t)
    (h : constructAt (u ++ '>' :: s) = .read tokens literal s) :
    constructAt (u ++ '>' :: t) = .read tokens literal t := by
  cases u with
  | nil =>
    have hlength := congrArg List.length (Construct.read.inj h).2.2
    simp at hlength
  | cons c u =>
    by_cases hc : c ∈ ['/', '!', '?']
    · simp only [List.mem_cons, List.not_mem_nil, or_false] at hc
      rcases hc with rfl | rfl | rfl
      · obtain ⟨hclose, rfl, rfl⟩ := upToClose_append h
        exact upToClose_of_not_mem hclose t
      · exact declarationAt_append h t
      · obtain ⟨hclose, rfl, rfl⟩ := upToClose_append h
        exact upToClose_of_not_mem hclose t
    · rw [List.cons_append, constructAt_of_other hc] at h ⊢
      split at h
      · rename_i halpha
        rw [if_pos halpha]
        exact startTagAt_append (u := c :: u) hquotes h
      · have hlength := congrArg List.length (Construct.read.inj h).2.2
        simp only [List.length_append, List.length_cons] at hlength
        omega

end Token

end Mailgrid.Markup
