import Mailgrid.Markup.Reference
import Mailgrid.Proofs.Text.Search

/-!
# References in values

`resolve_escapedQuotes`: quotes that are written as references do not change what
a value resolves to. That is not for the reference alone to decide, since a quote
may stand in what is taken for a name: such a name is unknown, and so the longest
known beginning of it ends before the quote in any case.
-/

namespace Mailgrid.Markup.Reference

-- ---------------------------------------------------------------------------
-- The table of names

/-- Rows of the table and their characters. -/
inductive Spells : List String → List (List Char) → Prop where
  | nil : Spells [] []
  | cons {row : List Char} {rows : List String} {spelled : List (List Char)} :
      Spells rows spelled → Spells (String.ofList row :: rows) (row :: spelled)

theorem flatMap_of_spells {rows : List String} {spelled : List (List Char)}
    (h : Spells rows spelled) :
    (rows.flatMap fun row => Named.ofRow row.toList) = spelled.flatMap Named.ofRow := by
  induction h with
  | nil => rfl
  | cons _ ih => simp only [List.flatMap_cons, String.toList_ofList, ih]

theorem exists_spelled : ∃ spelled, Spells nameRows spelled ∧
    ((spelled.flatMap Named.ofRow).find? (·.name == ['q', 'u', 'o', 't'])).map (·.text) =
      some ['"'] ∧
    ((spelled.flatMap Named.ofRow).all fun n => 2 ≤ n.name.length && !n.name.contains '"') =
      true := by
  unfold nameRows
  dsimp only
  apply Exists.intro
  apply And.intro
  · repeat apply Spells.cons
    exact .nil
  · decide +kernel

theorem textOf?_quot : textOf? ['q', 'u', 'o', 't'] = some ['"'] := by
  obtain ⟨spelled, hspelled, hquot, -⟩ := exists_spelled
  rw [textOf?, named, flatMap_of_spells hspelled]
  exact hquot

theorem of_mem_named {n : Named} (h : n ∈ named) : 2 ≤ n.name.length ∧ '"' ∉ n.name := by
  obtain ⟨spelled, hspelled, -, hall⟩ := exists_spelled
  rw [named, flatMap_of_spells hspelled] at h
  simpa using List.all_eq_true.mp hall n h

theorem codePoints_ne_nil (current : Nat) (codes : List Char) : codePoints current codes ≠ [] := by
  fun_induction codePoints current codes with
  | case1 => exact List.cons_ne_nil _ _
  | case2 => exact List.cons_ne_nil _ _
  | case3 _ _ _ _ ih => exact ih

theorem text_ne_nil {n : Named} (h : n ∈ named) : n.text ≠ [] := by
  obtain ⟨row, -, hrow⟩ := List.mem_flatMap.mp h
  obtain ⟨entry, -, hentry⟩ := List.mem_filterMap.mp hrow
  unfold Named.ofEntry at hentry
  split at hentry
  · cases hentry
  · cases hentry
    exact codePoints_ne_nil 0 _

variable {name p q s t rest : List Char}

theorem ne_nil_of_textOf? {text : List Char} (h : textOf? name = some text) : text ≠ [] := by
  obtain ⟨n, hn, rfl⟩ := Option.map_eq_some_iff.mp h
  exact text_ne_nil (List.mem_of_find?_eq_some hn)

theorem textOf?_eq_none (h : '"' ∈ name) : textOf? name = none := by
  rw [textOf?, Option.map_eq_none_iff, List.find?_eq_none]
  intro n hn he
  rw [beq_iff_eq] at he
  exact (of_mem_named hn).2 (he ▸ h)

theorem bareTextOf?_eq_none (h : '"' ∈ name ∨ name.length < 2) : bareTextOf? name = none := by
  rw [bareTextOf?, Option.map_eq_none_iff, List.find?_eq_none]
  intro n hn he
  simp only [Bool.and_eq_true, beq_iff_eq] at he
  obtain ⟨hlength, hquote⟩ := of_mem_named hn
  rw [he.2] at hlength hquote
  rcases h with h | h
  · exact hquote h
  · omega

-- ---------------------------------------------------------------------------
-- Known beginnings of names

theorem longestKnown?_of_none {n : Nat} (h : bareTextOf? (name.take (n + 1)) = none) :
    longestKnown? name (n + 1) = longestKnown? name n := by
  cases n with
  | zero => rfl
  | succ n => rw [longestKnown?, h]

theorem longestKnown?_append {n : Nat} (h : n ≤ p.length) :
    longestKnown? (p ++ q) n = (longestKnown? p n).map (· ++ q) := by
  induction n with
  | zero => rfl
  | succ n ih =>
    cases n with
    | zero => rfl
    | succ n =>
      have hlast := ih (by omega)
      rw [longestKnown?, longestKnown?, List.take_append_of_le_length h, List.drop_append_of_le_length h]
      cases bareTextOf? (p.take (n + 2)) with
      | some text => simp
      | none => exact hlast

theorem longestKnown?_behind (n : Nat) :
    longestKnown? (p ++ '"' :: q) (p.length + n) = (longestKnown? p p.length).map (· ++ '"' :: q) := by
  induction n with
  | zero => exact longestKnown?_append (Nat.le_refl _)
  | succ n ih =>
    rw [← Nat.add_assoc, longestKnown?_of_none, ih]
    refine bareTextOf?_eq_none (.inl ?_)
    rw [Nat.add_assoc, List.take_length_add_append]
    simp

/-- What a name that no semicolon follows stands for. -/
def expanded (name : List Char) : List Char :=
  (longestKnown? name name.length).getD ('&' :: name)

theorem valueOfName_open (h : name ≠ []) : valueOfName name false = expanded name := by
  obtain ⟨n, hn⟩ : ∃ n, name.length = n + 1 :=
    Nat.exists_eq_succ_of_ne_zero (mt List.length_eq_zero_iff.mp h)
  have htake : name.take (n + 1) = name := List.take_of_length_le (by omega)
  simp only [valueOfName, expanded, hn, Nat.add_sub_cancel, Bool.false_eq_true, if_false]
  cases hb : bareTextOf? name with
  | none =>
    rw [longestKnown?_of_none (by rw [htake, hb])]
    cases longestKnown? name n <;> simp
  | some text =>
    have htwo : ∃ m, n = m + 1 := by
      refine Nat.exists_eq_succ_of_ne_zero fun hz => ?_
      have hnone : bareTextOf? name = none := bareTextOf?_eq_none (.inr (by omega))
      cases hb.symm.trans hnone
    obtain ⟨m, rfl⟩ := htwo
    have hdrop : name.drop (m + 2) = [] := List.drop_of_length_le (by omega)
    rw [longestKnown?, htake, hb, hdrop]
    simp

theorem valueOfName_quote (closed : Bool) : valueOfName (p ++ '"' :: q) closed =
    expanded p ++ '"' :: (q ++ if closed then [';'] else []) := by
  have hmem : '"' ∈ p ++ '"' :: q := by simp
  have hnone : (if closed then textOf? (p ++ '"' :: q) else bareTextOf? (p ++ '"' :: q)) = none := by
    split
    · exact textOf?_eq_none hmem
    · exact bareTextOf?_eq_none (.inl hmem)
  have hlength : (if closed then (p ++ '"' :: q).length else (p ++ '"' :: q).length - 1) =
      p.length + (if closed then q.length + 1 else q.length) := by
    cases closed
    · simp only [List.length_append, List.length_cons, Bool.false_eq_true, if_false]
      omega
    · simp only [List.length_append, List.length_cons, if_true]
  simp only [valueOfName, hnone, hlength, longestKnown?_behind, expanded]
  cases longestKnown? p p.length <;> simp

-- ---------------------------------------------------------------------------
-- Resolving step by step

theorem resolve_cons {c : Char} (h : c ≠ '&') : resolve (c :: s) = c :: resolve s :=
  Text.substitute_of_none (by simp [valueMatch?, h])

theorem resolve_some {value : List Char} (h : valueAfter? s = some (value, rest)) :
    resolve ('&' :: s) = value ++ resolve rest := by
  have hshorter : rest.length < ('&' :: s).length :=
    Nat.lt_succ_of_le (length_le_of_valueAfter? h)
  refine @Text.substitute_of_match _ _ _ _ hshorter ?_
  simp only [valueMatch?, if_true]
  split
  · rename_i hv
    cases h.symm.trans hv
    rfl
  · rename_i hv
    cases h.symm.trans hv

theorem resolve_none (h : valueAfter? s = none) : resolve ('&' :: s) = '&' :: resolve s := by
  refine Text.substitute_of_none ?_
  simp only [valueMatch?, if_true]
  split
  · rename_i hv
    cases h.symm.trans hv
  · rfl

-- ---------------------------------------------------------------------------
-- Escaped quotes

def escapedQuotes (s : List Char) : List Char :=
  s.flatMap fun c => if c = '"' then "&quot;".toList else [c]

theorem escapedQuotes_append (s t : List Char) :
    escapedQuotes (s ++ t) = escapedQuotes s ++ escapedQuotes t :=
  List.flatMap_append

theorem escapedQuotes_cons {c : Char} (h : c ≠ '"') :
    escapedQuotes (c :: s) = c :: escapedQuotes s := by
  simp [escapedQuotes, h]

/-- The reference that stands for a quote. -/
def quotReference : List Char :=
  ['&', 'q', 'u', 'o', 't', ';']

theorem escapedQuotes_quote : escapedQuotes ('"' :: s) = quotReference ++ escapedQuotes s := by
  simp [escapedQuotes, quotReference]

theorem escapedQuotes_of_not_mem (h : '"' ∉ s) : escapedQuotes s = s := by
  induction s with
  | nil => rfl
  | cons c s ih =>
    simp only [List.mem_cons, not_or] at h
    rw [escapedQuotes_cons (Ne.symm h.1), ih h.2]

/-- An escaped text starts like the text itself, unless that starts with a quote. -/
theorem escapedQuotes_cases (s : List Char) : (s = [] ∧ escapedQuotes s = []) ∨
    (∃ t, s = '"' :: t ∧ escapedQuotes s = quotReference ++ escapedQuotes t) ∨
      ∃ c t, c ≠ '"' ∧ s = c :: t ∧ escapedQuotes s = c :: escapedQuotes t := by
  cases s with
  | nil => exact .inl ⟨rfl, rfl⟩
  | cons c t =>
    by_cases hc : c = '"'
    · subst hc
      exact .inr (.inl ⟨t, rfl, escapedQuotes_quote⟩)
    · exact .inr (.inr ⟨c, t, hc, rfl, escapedQuotes_cons hc⟩)

theorem head?_escapedQuotes (s : List Char) :
    ((escapedQuotes s).head? == some ';') = (s.head? == some ';') := by
  rcases escapedQuotes_cases s with ⟨rfl, h⟩ | ⟨t, rfl, h⟩ | ⟨c, t, -, rfl, h⟩ <;> rw [h] <;> rfl

theorem skipSemicolon_escapedQuotes (s : List Char) :
    skipSemicolon (escapedQuotes s) = escapedQuotes (skipSemicolon s) := by
  rcases escapedQuotes_cases s with ⟨rfl, -⟩ | ⟨t, rfl, h⟩ | ⟨c, t, -, rfl, h⟩
  · rfl
  · rw [h, skipSemicolon, skipSemicolon, h]
    · rintro rest he
      cases he
    · rintro rest he
      cases he
  · rw [h]
    unfold skipSemicolon
    by_cases hc : c = ';'
    · subst hc
      rfl
    · split
      · rename_i he
        cases he
        exact absurd rfl hc
      · split
        · rename_i he
          cases he
          exact absurd rfl hc
        · exact h.symm

section
variable {isOne : Char → Bool} (hquote : isOne '"' = false) (hampersand : isOne '&' = false)
include hquote hampersand

theorem takeWhile_escapedQuotes (s : List Char) :
    (escapedQuotes s).takeWhile isOne = s.takeWhile isOne ∧
      (escapedQuotes s).dropWhile isOne = escapedQuotes (s.dropWhile isOne) := by
  induction s with
  | nil => exact ⟨rfl, rfl⟩
  | cons c s ih =>
    by_cases hc : c = '"'
    · subst hc
      simp [escapedQuotes_quote, quotReference, hquote, hampersand]
    · rw [escapedQuotes_cons hc]
      cases ho : isOne c with
      | true => simp [ho, ih]
      | false => simp [ho, escapedQuotes_cons hc]

theorem number?_escapedQuotes (number : List Char → Nat) (s : List Char) :
    number? isOne number (escapedQuotes s) =
      (number? isOne number s).map fun (value, rest) => (value, escapedQuotes rest) := by
  obtain ⟨htake, hdrop⟩ := takeWhile_escapedQuotes hquote hampersand s
  simp only [number?, htake, hdrop, skipSemicolon_escapedQuotes]
  split <;> rfl

end

-- ---------------------------------------------------------------------------
-- Names

/-- This is what is taken for a name: it goes on as far as it can, or is as long as it may be. -/
structure IsTaken (name after : List Char) : Prop where
  chars : ∀ c ∈ name, isValueNameChar c = true
  ends : name.length = 32 ∨ name.length < 32 ∧ after.takeWhile isValueNameChar = []

theorem IsTaken.take_eq {after : List Char} (h : IsTaken name after) :
    ((name ++ after).takeWhile isValueNameChar).take 32 = name := by
  rw [List.takeWhile_append_of_pos h.chars]
  rcases h.ends with hlength | ⟨hlength, hend⟩
  · rw [← hlength, List.take_left]
  · rw [hend, List.append_nil, List.take_of_length_le (Nat.le_of_lt hlength)]

theorem IsTaken.name?_eq {after : List Char} (h : IsTaken name after) (hne : name ≠ []) :
    name? (name ++ after) =
      some (valueOfName name (after.head? == some ';'), skipSemicolon after) := by
  have hempty : name.isEmpty = false := by simpa using hne
  simp [name?, h.take_eq, hempty]

theorem exists_taken (s : List Char) : ∃ name after, s = name ++ after ∧ IsTaken name after := by
  have hchars : ∀ c ∈ s.takeWhile isValueNameChar, isValueNameChar c = true :=
    List.all_eq_true.mp List.all_takeWhile
  by_cases hlong : 32 ≤ (s.takeWhile isValueNameChar).length
  · refine ⟨(s.takeWhile isValueNameChar).take 32,
      (s.takeWhile isValueNameChar).drop 32 ++ s.dropWhile isValueNameChar, ?_,
      fun c hc => hchars c (List.mem_of_mem_take hc), .inl (List.length_take_of_le hlong)⟩
    rw [← List.append_assoc, List.take_append_drop, List.takeWhile_append_dropWhile]
  · refine ⟨s.takeWhile isValueNameChar, s.dropWhile isValueNameChar,
      List.takeWhile_append_dropWhile.symm, hchars, .inr ⟨Nat.lt_of_not_le hlong, ?_⟩⟩
    cases hs : s.dropWhile isValueNameChar with
    | nil => rfl
    | cons c rest =>
      have hc : isValueNameChar c = false := by
        have hhead := List.head?_dropWhile_not isValueNameChar s
        rw [hs] at hhead
        simpa using hhead
      simp [hc]

theorem valueAfter?_of_ne {c : Char} (h : c ≠ '#') : valueAfter? (c :: s) = name? (c :: s) := by
  unfold valueAfter?
  split
  · rename_i he
    cases he
    exact absurd rfl h
  · rename_i he
    cases he
    exact absurd rfl h
  · rename_i he
    cases he
    exact absurd rfl h
  · rfl

theorem valueOfName_quot : valueOfName ['q', 'u', 'o', 't'] true = ['"'] := by
  rw [valueOfName, if_pos rfl, if_pos rfl, textOf?_quot]

theorem resolve_quot (s : List Char) : resolve (quotReference ++ s) = '"' :: resolve s := by
  have htaken : IsTaken ['q', 'u', 'o', 't'] (';' :: s) := ⟨by decide, .inr ⟨by decide, rfl⟩⟩
  have hclosed : ((';' :: s).head? == some ';') = true := rfl
  have hname := htaken.name?_eq (List.cons_ne_nil _ _)
  rw [hclosed, valueOfName_quot] at hname
  have hafter : valueAfter? ('q' :: 'u' :: 'o' :: 't' :: ';' :: s) = some (['"'], s) := by
    rw [valueAfter?_of_ne (by decide)]
    exact hname
  exact resolve_some hafter

theorem resolve_escapedQuotes_append (h : '&' ∉ s) :
    resolve (escapedQuotes s ++ t) = s ++ resolve t := by
  induction s with
  | nil => rfl
  | cons c s ih =>
    simp only [List.mem_cons, not_or] at h
    by_cases hc : c = '"'
    · subst hc
      rw [escapedQuotes_quote, List.append_assoc, resolve_quot, ih h.2]
      rfl
    · rw [escapedQuotes_cons hc, List.cons_append, resolve_cons (Ne.symm h.1), ih h.2]
      rfl

theorem IsTaken.escaped {after : List Char} (h : IsTaken name after) :
    IsTaken name (escapedQuotes after) := by
  refine ⟨h.chars, h.ends.imp id fun ⟨hlength, hend⟩ => ⟨hlength, ?_⟩⟩
  rcases escapedQuotes_cases after with ⟨-, he⟩ | ⟨t, -, he⟩ | ⟨c, t, -, rfl, he⟩
  · rw [he]
    rfl
  · rw [he]
    rfl
  · rw [he]
    cases hc : isValueNameChar c with
    | false => simp [hc]
    | true => simp [hc] at hend

/-- Two texts behind an ampersand come to the same if what is behind their references does. -/
theorem resolve_ampersand_congr {s t : List Char} {behind : List Char → List Char}
    (h : valueAfter? t = (valueAfter? s).map fun (value, rest) => (value, behind rest))
    (hbehind : ∀ value rest, valueAfter? s = some (value, rest) →
      resolve (behind rest) = resolve rest) (hrest : resolve t = resolve s) :
    resolve ('&' :: t) = resolve ('&' :: s) := by
  cases hs : valueAfter? s with
  | none =>
    rw [hs] at h
    rw [resolve_none hs, resolve_none h, hrest]
  | some found =>
    obtain ⟨value, rest⟩ := found
    rw [hs] at h
    rw [resolve_some hs, resolve_some h, hbehind value rest hs]

theorem valueAfter?_escaped_number (s : List Char) : valueAfter? (escapedQuotes ('#' :: s)) =
    (valueAfter? ('#' :: s)).map fun (value, rest) => (value, escapedQuotes rest) := by
  have hhex := @number?_escapedQuotes isHexDigit (by decide) (by decide) hexNumber
  have hdecimal := @number?_escapedQuotes Char.isDigit (by decide) (by decide) decimalNumber
  rw [escapedQuotes_cons (by decide)]
  rcases escapedQuotes_cases s with ⟨rfl, -⟩ | ⟨t, rfl, he⟩ | ⟨c, t, hc, rfl, he⟩
  · exact hdecimal []
  · rw [he]
    exact he ▸ hdecimal ('"' :: t)
  · rw [he]
    by_cases hx : c = 'x'
    · subst hx
      exact hhex t
    · by_cases hX : c = 'X'
      · subst hX
        exact hhex t
      · have hplain (s : List Char) :
            valueAfter? ('#' :: c :: s) = number? Char.isDigit decimalNumber (c :: s) := by
          unfold valueAfter?
          split
          · rename_i he
            cases he
            exact absurd rfl hx
          · rename_i he
            cases he
            exact absurd rfl hX
          · rename_i he
            cases he
            rfl
          · rename_i he
            exact absurd rfl (he _)
        rw [hplain, hplain, ← he]
        exact hdecimal (c :: t)

theorem name?_of_nil (h : s.takeWhile isValueNameChar = []) : name? s = none := by
  simp [name?, h]

theorem valueAfter?_of_head (h : s.head? ≠ some '#') : valueAfter? s = name? s := by
  cases s with
  | nil => rfl
  | cons c s => exact valueAfter?_of_ne fun hc => h (hc ▸ rfl)

theorem resolve_skipSemicolon (s : List Char) :
    resolve s = (if s.head? == some ';' then [';'] else []) ++ resolve (skipSemicolon s) := by
  cases s with
  | nil => rfl
  | cons c rest =>
    by_cases hc : c = ';'
    · subst hc
      have hsemicolon : ';' ≠ '&' := by decide
      exact resolve_cons hsemicolon
    · have hkept : skipSemicolon (c :: rest) = c :: rest := by
        unfold skipSemicolon
        split
        · rename_i he
          cases he
          exact absurd rfl hc
        · rfl
      simp [hkept, hc]

theorem resolve_quoted_name {after : List Char} (h : IsTaken (p ++ '"' :: q) after)
    (hhash : (p ++ '"' :: q ++ after).head? ≠ some '#') :
    resolve ('&' :: (p ++ '"' :: q ++ after)) = expanded p ++ '"' :: (q ++ resolve after) := by
  have hname := h.name?_eq (by simp)
  rw [← valueAfter?_of_head hhash, valueOfName_quote] at hname
  rw [resolve_some hname, resolve_skipSemicolon after]
  simp [List.append_assoc]

theorem resolve_name_before (hp : ∀ c ∈ p, isValueNameChar c = true) (hlength : p.length < 32)
    (hhash : p.head? ≠ some '#') :
    resolve ('&' :: (p ++ '&' :: t)) = expanded p ++ resolve ('&' :: t) := by
  cases p with
  | nil => exact resolve_none (name?_of_nil (s := '&' :: t) rfl)
  | cons c p =>
    have htaken : IsTaken (c :: p) ('&' :: t) := ⟨hp, .inr ⟨hlength, rfl⟩⟩
    have hname := htaken.name?_eq (List.cons_ne_nil c p)
    have hopen : (('&' :: t).head? == some ';') = false := rfl
    rw [hopen, valueOfName_open (List.cons_ne_nil c p)] at hname
    have hafter : valueAfter? (c :: p ++ '&' :: t) = name? (c :: p ++ '&' :: t) :=
      valueAfter?_of_head hhash
    exact resolve_some (hafter.trans hname)

section
variable {name after : List Char} (h : IsTaken name after)
include h

theorem resolve_escaped_quoted (hhash : (name ++ after).head? ≠ some '#') (hmem : '"' ∈ name)
    (hafter : resolve (escapedQuotes after) = resolve after) :
    resolve ('&' :: escapedQuotes (name ++ after)) = resolve ('&' :: (name ++ after)) := by
  obtain ⟨p, q, rfl, hp⟩ := List.eq_append_cons_of_mem hmem
  have hq : '&' ∉ q := fun hm => by
    have hchar := h.chars '&' (by simp [hm])
    cases hchar
  have hlength : p.length < 32 := by
    have hends := h.ends
    simp only [List.length_append, List.length_cons] at hends
    omega
  have hphash : p.head? ≠ some '#' := fun hh => by
    obtain ⟨digits, rfl⟩ := List.head?_eq_some_iff.mp hh
    exact hhash rfl
  have hescaped : escapedQuotes (p ++ '"' :: q ++ after) =
      p ++ (quotReference ++ (escapedQuotes q ++ escapedQuotes after)) := by
    rw [escapedQuotes_append, escapedQuotes_append, escapedQuotes_of_not_mem hp,
      escapedQuotes_quote, List.append_assoc, List.append_assoc]
  have hbefore := resolve_name_before (t := ['q', 'u', 'o', 't', ';'] ++
    (escapedQuotes q ++ escapedQuotes after))
    (fun d hd => h.chars d (List.mem_append_left _ hd)) hlength hphash
  have hquot := resolve_quot (escapedQuotes q ++ escapedQuotes after)
  rw [resolve_escapedQuotes_append hq, hafter] at hquot
  rw [resolve_quoted_name h hhash, hescaped]
  exact hbefore.trans (congrArg (expanded p ++ ·) hquot)

theorem resolve_escaped_name (hhash : (name ++ after).head? ≠ some '#') (hmem : '"' ∉ name)
    (hafter : ∀ t : List Char, t.length ≤ after.length →
      resolve (escapedQuotes t) = resolve t) :
    resolve ('&' :: escapedQuotes (name ++ after)) = resolve ('&' :: (name ++ after)) := by
  rw [escapedQuotes_append, escapedQuotes_of_not_mem hmem]
  have hescaped := h.escaped
  cases name with
  | nil =>
    have hnone {t : List Char} (ht : IsTaken [] t) (hhash : t.head? ≠ some '#') :
        resolve ('&' :: t) = '&' :: resolve t := by
      refine resolve_none ((valueAfter?_of_head hhash).trans (name?_of_nil ?_))
      simpa using ht.ends
    have hhash' : (escapedQuotes after).head? ≠ some '#' := by
      rcases escapedQuotes_cases after with ⟨-, he⟩ | ⟨t, -, he⟩ | ⟨c, t, -, rfl, he⟩
      · simp [he]
      · simp [he, quotReference]
      · rw [he]
        exact hhash
    exact (hnone hescaped hhash').trans
      ((congrArg _ (hafter after (Nat.le_refl _))).trans (hnone h hhash).symm)
  | cons c name =>
    have hname := h.name?_eq (List.cons_ne_nil c name)
    have hname' := hescaped.name?_eq (List.cons_ne_nil c name)
    rw [head?_escapedQuotes, skipSemicolon_escapedQuotes] at hname'
    rw [← valueAfter?_of_head hhash] at hname
    rw [← valueAfter?_of_head (by simpa using hhash)] at hname'
    rw [resolve_some hname, resolve_some hname', hafter _ (length_skipSemicolon_le after)]

end

/-- Quotes that are escaped are quotes again when references are resolved. -/
theorem resolve_escapedQuotes (s : List Char) : resolve (escapedQuotes s) = resolve s := by
  induction hn : s.length using Nat.strongRecOn generalizing s with
  | ind n ih =>
  subst hn
  cases s with
  | nil => rfl
  | cons c s =>
    have hshorter (t : List Char) (ht : t.length ≤ s.length) :
        resolve (escapedQuotes t) = resolve t := ih _ (Nat.lt_succ_of_le ht) t rfl
    have hs := hshorter s (Nat.le_refl _)
    by_cases hquote : c = '"'
    · subst hquote
      have hne : '"' ≠ '&' := by decide
      rw [escapedQuotes_quote, resolve_quot, resolve_cons hne, hs]
    rw [escapedQuotes_cons hquote]
    by_cases hampersand : c = '&'
    · subst hampersand
      by_cases hhash : s.head? = some '#'
      · obtain ⟨digits, rfl⟩ := List.head?_eq_some_iff.mp hhash
        refine resolve_ampersand_congr (valueAfter?_escaped_number digits) ?_ hs
        exact fun value rest hv => hshorter rest (length_le_of_valueAfter? hv)
      · obtain ⟨name, after, rfl, htaken⟩ := exists_taken s
        have hafter (t : List Char) (ht : t.length ≤ after.length) :
            resolve (escapedQuotes t) = resolve t := by
          refine hshorter t ?_
          simp only [List.length_append]
          omega
        by_cases hmem : '"' ∈ name
        · exact resolve_escaped_quoted htaken hhash hmem (hafter after (Nat.le_refl _))
        · exact resolve_escaped_name htaken hhash hmem hafter
    · rw [resolve_cons hampersand, resolve_cons hampersand, hs]

end Mailgrid.Markup.Reference
