import Mailgrid.Proofs.Markup.Ended
import Mailgrid.Proofs.Markup.Remainders
import Mailgrid.Proofs.VoidElement.Slashed

/-!
# Constructs with slashes put in

A construct that is read up to a `>` is read up to it with slashes put in before
that and before any `>` in its values. What a slash at the very end changes is
whether a tag is closed; a comment or the body of a literal element would not
end there any more.
-/

namespace Mailgrid.Markup

open Mailgrid.Text (isBlank skipBlanks cutAt cutAtChar)
open Mailgrid.VoidElement (Slashed)

/-- The second text is the first, with a space and a slash put before some of the `>` that stand
before `rest`. The flag tells whether the last of these is one of them. -/
inductive SlashedTo (rest : List Char) : Bool → List Char → List Char → Prop where
  | kept : SlashedTo rest false ('>' :: rest) ('>' :: rest)
  | last : SlashedTo rest true ('>' :: rest) (' ' :: '/' :: '>' :: rest)
  | cons (c : Char) {b : Bool} {s t : List Char} :
    SlashedTo rest b s t → SlashedTo rest b (c :: s) (c :: t)
  | slash {b : Bool} {s t : List Char} :
    SlashedTo rest b s t → SlashedTo rest b ('>' :: s) (' ' :: '/' :: '>' :: t)

namespace SlashedTo

variable {rest s t : List Char} {b : Bool}

theorem length_lt (h : SlashedTo rest b s t) : rest.length < s.length := by
  induction h with
  | kept => exact Nat.lt_succ_self _
  | last => exact Nat.lt_succ_self _
  | cons c _ ih => exact Nat.lt_succ_of_lt ih
  | slash _ ih => exact Nat.lt_succ_of_lt ih

theorem exists_eq (h : SlashedTo rest b s t) : ∃ u, s = u ++ '>' :: rest := by
  induction h with
  | kept => exact ⟨[], rfl⟩
  | last => exact ⟨[], rfl⟩
  | @cons c _ _ _ _ ih =>
    obtain ⟨u, rfl⟩ := ih
    exact ⟨c :: u, rfl⟩
  | slash _ ih =>
    obtain ⟨u, rfl⟩ := ih
    exact ⟨'>' :: u, rfl⟩

theorem irrefl (h : SlashedTo rest b rest t) : False :=
  Nat.lt_irrefl _ h.length_lt

theorem append {u v : List Char} (h : Slashed u v) (h' : SlashedTo rest b s t) :
    SlashedTo rest b (u ++ s) (v ++ t) := by
  induction h with
  | nil => exact h'
  | cons c _ ih => exact .cons c ih
  | slash _ ih => exact .slash ih

theorem map {f : Char → Char} (hclose : f '>' = '>') (hspace : f ' ' = ' ') (hslash : f '/' = '/')
    (h : SlashedTo rest b s t) : SlashedTo (rest.map f) b (s.map f) (t.map f) := by
  induction h with
  | kept =>
    rw [List.map_cons, hclose]
    exact .kept
  | last =>
    rw [List.map_cons, List.map_cons, List.map_cons, List.map_cons, hclose, hspace, hslash]
    exact .last
  | cons c _ ih => exact .cons (f c) ih
  | slash _ ih =>
    rw [List.map_cons, List.map_cons, List.map_cons, List.map_cons, hclose, hspace, hslash]
    exact .slash ih

theorem takeWhile {p : Char → Bool} (hspace : p ' ' = false) (hclose : p '>' = false)
    (h : SlashedTo rest b s t) : s.takeWhile p = t.takeWhile p ∧
      SlashedTo rest b (s.dropWhile p) (t.dropWhile p) := by
  induction h with
  | kept => simpa [hclose] using kept
  | last => simpa [hclose, hspace] using last
  | slash h => simpa [hclose, hspace] using slash h
  | cons c h ih =>
    simp only [List.takeWhile_cons, List.dropWhile_cons]
    split
    · exact ⟨congrArg (c :: ·) ih.1, ih.2⟩
    · exact ⟨rfl, .cons c h⟩

/-- What stands behind a `>` that may be the last one. -/
def Behind (rest : List Char) (b : Bool) (s t : List Char) : Prop :=
  SlashedTo rest b s t ∨ b = true ∧ s = rest ∧ t = rest

/-- The first `>` has a slash before it. -/
def Starts (rest : List Char) (b : Bool) (s t : List Char) : Prop :=
  ∃ s' t', s = '>' :: s' ∧ t = '/' :: '>' :: t' ∧ Behind rest b s' t'

theorem head (h : SlashedTo rest b s t) : s.head? = t.head? ∨
    ∃ t', t = ' ' :: t' ∧ Starts rest b s t' := by
  cases h with
  | kept => exact .inl rfl
  | last => exact .inr ⟨_, rfl, _, _, rfl, rfl, .inr ⟨rfl, rfl, rfl⟩⟩
  | cons c h => exact .inl rfl
  | slash h => exact .inr ⟨_, rfl, _, _, rfl, rfl, .inl h⟩

theorem skipBlanks (h : SlashedTo rest b s t) :
    SlashedTo rest b (skipBlanks s) (skipBlanks t) ∨
      Starts rest b (Text.skipBlanks s) (Text.skipBlanks t) := by
  have hclose : isBlank '>' = false := rfl
  have hslash : isBlank '/' = false := rfl
  have hspace : isBlank ' ' = true := rfl
  induction h with
  | kept => exact .inl (by simpa [Text.skipBlanks, hclose] using kept)
  | last =>
    refine .inr ⟨rest, rest, ?_, ?_, .inr ⟨rfl, rfl, rfl⟩⟩
    · simp [Text.skipBlanks, hclose]
    · simp [Text.skipBlanks, hspace, hslash]
  | @slash b s t h =>
    refine .inr ⟨s, t, ?_, ?_, .inl h⟩
    · simp [Text.skipBlanks, hclose]
    · simp [Text.skipBlanks, hspace, hslash]
  | cons c h ih =>
    simp only [Text.skipBlanks, List.dropWhile_cons] at ih ⊢
    split
    · exact ih
    · exact .inl (.cons c h)

theorem cutAtChar {quote : Char} (hquote : quote ∉ [' ', '/', '>']) (h : SlashedTo rest b s t) :
    (cutAtChar quote s = none ∧ cutAtChar quote t = none) ∨
      ∃ inside after inside' after', Text.cutAtChar quote s = some (inside, after) ∧
        Text.cutAtChar quote t = some (inside', after') ∧
          (after.length < rest.length ∨ SlashedTo rest b after after') := by
  simp only [List.mem_cons, List.not_mem_nil, or_false, not_or] at hquote
  obtain ⟨hspace, hslash, hclose⟩ := hquote
  have hbase (before : List Char) (hbefore : quote ∉ before) (b : Bool) :
      (Text.cutAtChar quote ('>' :: rest) = none ∧
        Text.cutAtChar quote (before ++ '>' :: rest) = none) ∨
      ∃ inside after inside' after', Text.cutAtChar quote ('>' :: rest) = some (inside, after) ∧
        Text.cutAtChar quote (before ++ '>' :: rest) = some (inside', after') ∧
          (after.length < rest.length ∨ SlashedTo rest b after after') := by
    by_cases hm : quote ∈ rest
    · obtain ⟨x, after, rfl, hx⟩ := List.eq_append_cons_of_mem hm
      have hcut (before : List Char) (hbefore : quote ∉ before) :
          Text.cutAtChar quote (before ++ '>' :: (x ++ quote :: after)) =
            some (before ++ '>' :: x, after) := by
        rw [← List.cons_append, ← List.append_assoc]
        exact Text.cutAtChar_append (by simp [hbefore, hclose, hx]) after
      refine .inr ⟨_, _, _, _, hcut [] nofun, hcut before hbefore, .inl ?_⟩
      simp only [List.length_append, List.length_cons]
      omega
    · exact .inl ⟨Text.cutAtChar_of_not_mem (by simp [hclose, hm]),
        Text.cutAtChar_of_not_mem (by simp [hbefore, hclose, hm])⟩
  induction h with
  | kept => exact hbase [] nofun false
  | last => exact hbase [' ', '/'] (by simp [hspace, hslash]) true
  | @cons c b s t h ih =>
    by_cases hc : c = quote
    · simp only [Text.cutAtChar, hc, if_true]
      exact .inr ⟨_, _, _, _, rfl, rfl, .inr h⟩
    · obtain ⟨hn, hn'⟩ | ⟨inside, after, inside', after', hs, ht, hafter⟩ := ih
      · simp [Text.cutAtChar, hc, hn, hn']
      · exact .inr ⟨c :: inside, after, c :: inside', after', by simp [Text.cutAtChar, hc, hs],
        by simp [Text.cutAtChar, hc, ht], hafter⟩
  | @slash b s t h ih =>
    obtain ⟨hn, hn'⟩ | ⟨inside, after, inside', after', hs, ht, hafter⟩ := ih
    · simp [Text.cutAtChar, Ne.symm hspace, Ne.symm hslash, Ne.symm hclose, hn, hn']
    · exact .inr ⟨'>' :: inside, after, ' ' :: '/' :: '>' :: inside', after',
        by simp [Text.cutAtChar, Ne.symm hclose, hs],
        by simp [Text.cutAtChar, Ne.symm hspace, Ne.symm hslash, Ne.symm hclose, ht], hafter⟩

theorem cutAtClose {inner : List Char} (h : SlashedTo rest b s t)
    (hcut : Text.cutAtChar '>' s = some (inner, rest)) :
    ∃ inner', Text.cutAtChar '>' t = some (inner', rest) := by
  induction h generalizing inner with
  | kept => exact ⟨_, hcut⟩
  | last => exact ⟨[' ', '/'], rfl⟩
  | @cons c b s t h ih =>
    rw [Text.cutAtChar] at hcut ⊢
    split at hcut
    · cases hcut
      exact h.irrefl.elim
    · rename_i hc
      obtain ⟨⟨before, after⟩, hs, he⟩ := Option.map_eq_some_iff.mp hcut
      cases he
      obtain ⟨inner', ht⟩ := ih hs
      exact ⟨c :: inner', by rw [if_neg hc, ht]; rfl⟩
  | slash h =>
    cases hcut
    exact h.irrefl.elim

end SlashedTo

-- ---------------------------------------------------------------------------
-- Start tags

namespace OpenTag

variable {rest s t x y : List Char} {b : Bool}

theorem startsWithGap_skipGaps (s : List Char) : startsWithGap (skipGaps s) = false := by
  induction s with
  | nil => rfl
  | cons c s ih =>
    rw [skipGaps]
    split
    · exact ih
    · rename_i hgap
      exact Bool.eq_false_iff.mpr hgap

theorem skipGaps_slashed (h : SlashedTo rest b s t) :
    (SlashedTo rest b (skipGaps s) (skipGaps t) ∧ startsWithGap t = startsWithGap s) ∨
      ∃ slash s' t', (slash = [] ∨ slash = ['/']) ∧ skipGaps s = slash ++ '>' :: s' ∧
        skipGaps t = '/' :: '>' :: t' ∧ SlashedTo.Behind rest b s' t' := by
  have hspace (u : List Char) : skipGaps (' ' :: '/' :: '>' :: u) = '/' :: '>' :: u := rfl
  have hclose (u : List Char) : skipGaps ('>' :: u) = '>' :: u := rfl
  induction h with
  | kept => exact .inl ⟨.kept, rfl⟩
  | last => exact .inr ⟨[], _, _, .inl rfl, hclose rest, hspace rest, .inr ⟨rfl, rfl, rfl⟩⟩
  | slash h => exact .inr ⟨[], _, _, .inl rfl, hclose _, hspace _, .inl h⟩
  | @cons c b s t h ih =>
    by_cases hblank : isBlank c = true
    · have hgap (u : List Char) : isGap c u = true := by simp [isGap, hblank]
      simp only [skipGaps, startsWithGap, hgap, if_true, and_true]
      exact ih.imp_left And.left
    by_cases hslash : c = '/'
    · subst hslash
      obtain hhead | ⟨t', rfl, s', u', rfl, rfl, hbehind⟩ := h.head
      · have hgap : isGap '/' t = isGap '/' s := by rw [isGap, isGap, hhead]
        simp only [skipGaps, startsWithGap, hgap, and_true]
        split
        · exact ih.imp_left And.left
        · exact .inl (.cons '/' h)
      · exact .inr ⟨['/'], s', u', .inr rfl, rfl, rfl, hbehind⟩
    · have hgap (u : List Char) : isGap c u = false := by simp [isGap, hblank, hslash]
      simp only [skipGaps, startsWithGap, hgap, Bool.false_eq_true, if_false, and_true]
      exact .inl (.cons c h)

/-- A value with slashes put in, and what follows it. -/
def Value.Slashed (rest : List Char) (b : Bool) (v w : Value) : Prop :=
  w.open_ = v.open_ ∧ ∃ c, (b = false → c = false) ∧ SlashedTo rest c v.rest w.rest

theorem unquoted_slashed (h : SlashedTo rest b s t) :
    (unquoted s).Slashed rest b (unquoted t) :=
  ⟨rfl, b, id, (h.takeWhile rfl rfl).2⟩

theorem valueAt?_slashed (h : SlashedTo rest b s t) (signs : Nat) (padded : Bool) :
    (∃ v, valueAt? signs padded s = some v ∧ v.rest.length < rest.length) ∨
      Option.Rel (Value.Slashed rest b) (valueAt? signs padded s) (valueAt? signs padded t) := by
  cases h with
  | kept => exact .inr (.some (unquoted_slashed .kept))
  | last => exact .inr (.some (unquoted_slashed .last))
  | slash h => exact .inr (.some (unquoted_slashed (.slash h)))
  | @cons q _ s t h =>
    simp only [valueAt?]
    split
    · rename_i hq
      have hquote : q ∉ [' ', '/', '>'] := by
        simp only [isQuote, Bool.or_eq_true, beq_iff_eq] at hq
        rcases hq with rfl | rfl <;> decide
      obtain ⟨hs, ht⟩ | ⟨inside, after, inside', after', hs, ht, hafter⟩ := h.cutAtChar hquote
      · simp only [hs, ht]
        have hstart : SlashedTo rest b (q :: s) (q :: t) := .cons q h
        split
        · exact .inr (.some ⟨rfl, b, id, hstart⟩)
        · split
          · exact .inr (.some (unquoted_slashed hstart))
          · exact .inr .none
      · simp only [hs, ht]
        obtain hshort | hafter := hafter
        · exact .inl ⟨_, rfl, hshort⟩
        · exact .inr (.some ⟨rfl, b, id, hafter⟩)
    · exact .inr (.some (unquoted_slashed (.cons q h)))

/-- A slash that stands right behind an equals sign is a value. -/
theorem valueAt?_starts (h : SlashedTo.Starts rest b s t) (signs : Nat) (padded padded' : Bool) :
    Option.Rel (Value.Slashed rest b) (valueAt? signs padded s) (valueAt? signs padded' t) := by
  obtain ⟨s', t', rfl, rfl, hbehind⟩ := h
  refine .some ⟨rfl, ?_⟩
  obtain h | ⟨-, rfl, rfl⟩ := hbehind
  · exact ⟨b, id, .cons '>' h⟩
  · exact ⟨false, fun _ => rfl, .kept⟩

theorem value?_slashed (h : SlashedTo rest b s t) :
    (∃ v, value? s = some v ∧ v.rest.length < rest.length) ∨
      Option.Rel (Value.Slashed rest b) (value? s) (value? t) := by
  obtain h | ⟨s', t', hs, ht, -⟩ := h.skipBlanks
  · obtain ⟨htake, hdrop⟩ := h.takeWhile (p := (· == '=')) rfl rfl
    simp only [value?, ← htake]
    generalize (skipBlanks s).dropWhile (· == '=') = u at hdrop
    generalize (skipBlanks t).dropWhile (· == '=') = v at hdrop
    split
    · exact .inr .none
    · obtain hu | hu := hdrop.skipBlanks
      · obtain hhead | ⟨v', rfl, s', t', rfl, rfl, -⟩ := hdrop.head
        · rw [hhead]
          exact valueAt?_slashed hu _ _
        · cases hu
      · exact .inr (valueAt?_starts hu _ _ _)
  · simp only [value?, hs, ht]
    exact .inr .none

theorem attribute?_slashed (h : SlashedTo rest b s t) :
    (∃ a, attribute? s = some a ∧ a.value.rest.length < rest.length) ∨
      Option.Rel (fun a a' => a.value.Slashed rest b a'.value) (attribute? s) (attribute? t) := by
  cases h with
  | kept => exact .inr .none
  | last => exact .inr .none
  | slash h => exact .inr .none
  | @cons c _ s t h =>
    obtain ⟨htake, hdrop⟩ := h.takeWhile (p := isAttributeChar) rfl rfl
    simp only [attribute?, ← htake]
    generalize s.dropWhile isAttributeChar = u at hdrop
    generalize t.dropWhile isAttributeChar = v at hdrop
    split
    · exact .inr .none
    · obtain ⟨w, hw, hshort⟩ | hsame := value?_slashed hdrop
      · simp only [hw]
        exact .inl ⟨_, rfl, hshort⟩
      · right
        generalize value? u = w at hsame
        generalize value? v = w' at hsame
        cases hsame with
        | some hvalue => exact .some hvalue
        | none => exact .some ⟨rfl, b, id, hdrop⟩

/-- The end of a tag, right before `rest`. -/
def IsEnd (rest x : List Char) : Prop :=
  x = '>' :: rest ∨ x = '/' :: '>' :: rest

/-- The end of a tag with slashes put in: a tag that is closed stays closed. -/
structure EndsAs (rest : List Char) (b : Bool) (x y : List Char) : Prop where
  isEnd : IsEnd rest y
  closed : x = '/' :: '>' :: rest → y = x
  kept : b = false → y = x

theorem endsAs_of_slashed (h : SlashedTo rest b x y) (hgap : startsWithGap y = false)
    (hend : IsEnd rest x) : EndsAs rest b x y := by
  have hsame : y = x := by
    obtain rfl | rfl := hend
    · cases h with
      | kept => rfl
      | last => cases hgap
      | cons _ h => exact h.irrefl.elim
      | slash h => exact h.irrefl.elim
    · cases h with
      | cons _ h =>
        cases h with
        | kept => rfl
        | last => cases hgap
        | cons _ h => exact h.irrefl.elim
        | slash h => exact h.irrefl.elim
  exact ⟨hsame ▸ hend, fun _ => hsame, fun _ => hsame⟩

/-- Where the attributes of a tag reach to its end, they do so with slashes put in. -/
theorem attributesOf_slashed (h : SlashedTo rest b s t) (touching : Bool)
    (hend : IsEnd rest (attributesOf (touching || startsWithGap s) (skipGaps s)).2) :
    EndsAs rest b (attributesOf (touching || startsWithGap s) (skipGaps s)).2
      (attributesOf (touching || startsWithGap t) (skipGaps t)).2 := by
  induction hn : s.length using Nat.strongRecOn generalizing b s t touching with
  | ind n ih =>
    subst hn
    obtain ⟨hsame, hgap⟩ | ⟨slash, s', t', hslash, hs, ht, hbehind⟩ := skipGaps_slashed h
    · have hended := endsAs_of_slashed hsame (startsWithGap_skipGaps t)
      rw [hgap]
      generalize (touching || startsWithGap s) = begins at hend ⊢
      cases begins with
      | false =>
        have hnone (x : List Char) : attributesOf false x = ([], x) := by
          rw [attributesOf, if_neg Bool.false_ne_true]
        rw [hnone] at hend ⊢
        rw [hnone]
        exact hended hend
      | true =>
        obtain ⟨a, ha, hshort⟩ | hrel := attribute?_slashed hsame
        · rw [attributesOf_of_some ha] at hend
          have hlength := Nat.le_trans (length_attributesOf_le (a.value.open_ ||
            startsWithGap a.value.rest) _) (length_skipGaps_le a.value.rest)
          obtain hend | hend := hend <;>
          · have := congrArg List.length hend
            simp only [List.length_cons] at this
            omega
        · cases ha : attribute? (skipGaps s) with
          | none =>
            have ha' : attribute? (skipGaps t) = none := by
              rw [ha] at hrel
              generalize attribute? (skipGaps t) = found at hrel
              cases hrel
              rfl
            rw [attributesOf_of_none ha] at hend ⊢
            rw [attributesOf_of_none ha']
            exact hended hend
          | some a =>
            obtain ⟨a', ha', hopen, c, hc, hbehind⟩ : ∃ a',
                attribute? (skipGaps t) = some a' ∧ a.value.Slashed rest b a'.value := by
              rw [ha] at hrel
              generalize attribute? (skipGaps t) = found at hrel
              cases hrel with
              | some hvalue => exact ⟨_, rfl, hvalue⟩
            rw [attributesOf_of_some ha] at hend ⊢
            rw [attributesOf_of_some ha', hopen]
            have hlength : a.value.rest.length < s.length :=
              Nat.lt_of_lt_of_le (length_lt_of_attribute? ha) (length_skipGaps_le s)
            obtain ⟨hisEnd, hclosed, hkept⟩ := ih _ hlength hbehind a.value.open_ hend rfl
            exact ⟨hisEnd, hclosed, fun hb => hkept (hc hb)⟩
    · have hnone : attribute? (slash ++ '>' :: s') = none := by
        rcases hslash with rfl | rfl <;> rfl
      have hnone' : attribute? ('/' :: '>' :: t') = none := rfl
      rw [hs, attributesOf_of_none hnone] at hend ⊢
      rw [ht, attributesOf_of_none hnone']
      have hrest : s' = rest := by
        rcases hslash with rfl | rfl <;> rcases hend with he | he <;> cases he <;> rfl
      subst hrest
      obtain hfalse | ⟨hb, -, rfl⟩ := hbehind
      · exact hfalse.irrefl.elim
      · refine ⟨.inr rfl, fun he => he.symm, fun hfalse => ?_⟩
        rw [hb] at hfalse
        cases hfalse

theorem of_readingOf {name ending : List Char} {parts : List (List Char × List Char)}
    {tag : OpenTag} (h : readingOf name parts ending = .complete tag rest) :
    tag.name = String.ofList (Text.lower name) ∧
      ending = if tag.closed then '/' :: '>' :: rest else '>' :: rest := by
  obtain rfl | rfl := ending_of_readingOf h
  all_goals
    simp only [readingOf] at h
    split at h
    · cases h
    · cases h
      exact ⟨rfl, rfl⟩

theorem exists_readingOf {ending : List Char} (name : List Char)
    {parts : List (List Char × List Char)}
    (fits : (parts.any fun p => Reference.holdsTooLong p.2) = false) (h : IsEnd rest ending) :
    ∃ tag, readingOf name parts ending = .complete tag rest := by
  obtain rfl | rfl := h <;>
  · simp only [readingOf, fits]
    exact ⟨_, rfl⟩

theorem fits_attributesOf (touching : Bool) (h : '&' ∉ s) :
    (((attributesOf touching s).1.map (·.parts)).any fun p => Reference.holdsTooLong p.2) =
      false := by
  rw [List.any_eq_false]
  intro p hp
  obtain ⟨a, ha, rfl⟩ := List.mem_map.mp hp
  have hnone : '&' ∉ a.value.text := by
    intro hm
    rcases ((of_attributesOf touching s).1 a ha).value.1 _ hm with hm | hm
    · exact h hm
    · exact absurd hm (by decide)
  simp [Attribute.parts, Reference.holdsTooLong_of_not_mem hnone]

/-- A start tag with slashes put in is a start tag of the same name. -/
theorem read_slashed {tag : OpenTag} (h : SlashedTo rest b s t) (hampersand : '&' ∉ t)
    (hread : read s = .complete tag rest) : ∃ tag', read t = .complete tag' rest ∧
      tag'.name = tag.name ∧ (b = false ∨ tag.closed = true → tag'.closed = tag.closed) := by
  obtain ⟨htake, hdrop⟩ := h.takeWhile (p := isNameChar) rfl rfl
  have htouches (name u : List Char) : touches name u =
      ((name.getLast?.map fun c => isQuote c || isBlank c).getD false || startsWithGap u) :=
    Bool.or_comm _ _
  rw [read_eq, htouches] at hread
  rw [read_eq, ← htake, htouches]
  have hended := attributesOf_slashed hdrop _ (ending_of_readingOf hread)
  have hnone : '&' ∉ skipGaps (t.dropWhile isNameChar) := fun hm =>
    hampersand ((List.dropWhile_suffix _).subset (skipGaps_subset _ hm))
  obtain ⟨tag', hread'⟩ :=
    exists_readingOf (s.takeWhile isNameChar) (fits_attributesOf _ hnone) hended.isEnd
  obtain ⟨hname, hending⟩ := of_readingOf hread
  obtain ⟨hname', hending'⟩ := of_readingOf hread'
  refine ⟨tag', hread', hname'.trans hname.symm, fun hsame => ?_⟩
  have hy := hsame.elim hended.kept fun hclosed => hended.closed (by rw [hending, hclosed]; rfl)
  rw [hending, hending'] at hy
  generalize tag.closed = closed at hy ⊢
  generalize tag'.closed = closed' at hy ⊢
  cases closed <;> cases closed' <;> first | rfl | cases hy

end OpenTag

-- ---------------------------------------------------------------------------
-- Ends

namespace Token

variable {rest s t : List Char} {α : Type} {look : List Char → Option α} {a : α}

/-- What is found at the last `>` is found there with slashes put in before others, and where nothing
is found nothing is found then. -/
structure Stands (look : List Char → Option α) (rest : List Char) (a : α) : Prop where
  none_ : ∀ {s t}, SlashedTo rest false s t → look s = none → look t = none
  some_ : ∀ {s t}, SlashedTo rest false s t → look s = some a → look t = some a

theorem cutAt_slashed (stands : Stands look rest a)
    (hstops : ∀ c ∈ [' ', '/', '>'], ∀ u, look (c :: u) = none)
    (hrest : ∀ inner, cutAt look rest ≠ some (inner, a)) (h : SlashedTo rest false s t)
    {inner : List Char} (hcut : cutAt look s = some (inner, a)) :
    ∃ inner', cutAt look t = some (inner', a) := by
  have hcons {c : Char} {u : List Char} (hnone : look (c :: u) = none)
      (hu : ∃ inner, cutAt look u = some (inner, a)) :
      ∃ inner, cutAt look (c :: u) = some (inner, a) := by
    obtain ⟨inner, hu⟩ := hu
    exact ⟨c :: inner, by rw [cutAt, hnone, hu]; rfl⟩
  generalize hb : false = b at h
  induction h generalizing inner with
  | kept =>
    rw [cutAt, hstops '>' (by decide)] at hcut
    obtain ⟨⟨before, found⟩, hcut, he⟩ := Option.map_eq_some_iff.mp hcut
    cases he
    exact absurd hcut (hrest before)
  | last => cases hb
  | @cons c b s t h ih =>
    subst hb
    rw [cutAt] at hcut
    split at hcut
    · rename_i hfound
      cases hcut
      exact ⟨[], by rw [cutAt, stands.some_ (.cons c h) hfound]⟩
    · rename_i hnone
      obtain ⟨⟨before, found⟩, hcut, he⟩ := Option.map_eq_some_iff.mp hcut
      cases he
      exact hcons (stands.none_ (.cons c h) hnone) (ih hcut rfl)
  | @slash b s t h ih =>
    rw [cutAt, hstops '>' (by decide)] at hcut
    obtain ⟨⟨before, found⟩, hcut, he⟩ := Option.map_eq_some_iff.mp hcut
    cases he
    exact hcons (hstops ' ' (by decide) _) (hcons (hstops '/' (by decide) _)
      (hcons (hstops '>' (by decide) _) (ih hcut hb)))

theorem behind_of_ne {c d : Char} (h : d ≠ c) (look : List Char → Option α) (s : List Char) :
    behind c look (d :: s) = none :=
  if_neg h

theorem Stands.behind (stands : Stands look rest a) {c : Char} (hc : c ∉ [' ', '>']) :
    Stands (behind c look) rest a := by
  simp only [List.mem_cons, List.not_mem_nil, or_false, not_or] at hc
  have hspace := behind_of_ne (Ne.symm hc.1) look
  have hclose := behind_of_ne (Ne.symm hc.2) look
  constructor <;> intro s t h hs
  · cases h with
    | kept => exact hs
    | slash h => exact hspace _
    | cons d h =>
      simp only [Token.behind] at hs ⊢
      split
      · rename_i hd
        rw [if_pos hd] at hs
        exact stands.none_ h hs
      · rfl
  · cases h with
    | kept => exact hs
    | slash h => cases (hclose _).symm.trans hs
    | cons d h =>
      simp only [Token.behind] at hs ⊢
      split
      · rename_i hd
        rw [if_pos hd] at hs
        exact stands.some_ h hs
      · rename_i hd
        rw [if_neg hd] at hs
        cases hs

theorem Stands.blanks (stands : Stands look rest a)
    (hstops : ∀ c ∈ ['/', '>'], ∀ u, look (c :: u) = none) :
    Stands (fun s => look (skipBlanks s)) rest a := by
  constructor <;> intro s t h hs
  all_goals obtain h | ⟨s', t', hs', ht', -⟩ := h.skipBlanks
  · exact stands.none_ h hs
  · simp only [ht']
    exact hstops '/' (by decide) _
  · exact stands.some_ h hs
  · simp only [hs', hstops '>' (by decide)] at hs
    cases hs

theorem stands_close (rest : List Char) : Stands close? rest rest := by
  have hone {s t : List Char} (h : SlashedTo rest false s t) :
      (Token.behind '>' some s = none → Token.behind '>' some t = none) ∧
        (Token.behind '>' some s = some rest → Token.behind '>' some t = some rest) := by
    cases h with
    | kept => exact ⟨id, id⟩
    | slash h =>
      refine ⟨fun he => absurd he (Option.some_ne_none _), fun he => ?_⟩
      cases he
      exact h.irrefl.elim
    | cons c h =>
      simp only [Token.behind]
      split
      · refine ⟨fun he => absurd he (Option.some_ne_none _), fun he => ?_⟩
        cases he
        exact h.irrefl.elim
      · exact ⟨id, id⟩
  have hstarts {s' t' : List Char} (h : SlashedTo.Behind rest false s' t') : s' ≠ rest := by
    rintro rfl
    obtain h | ⟨hb, -⟩ := h
    · exact h.irrefl
    · cases hb
  rw [funext close?_eq]
  constructor <;> intro s t h hs
  all_goals obtain h | ⟨s', t', hs', ht', hbehind⟩ := h.skipBlanks
  · exact (hone h).1 hs
  · rw [hs'] at hs
    cases hs
  · exact (hone h).2 hs
  · rw [hs'] at hs
    exact absurd (Option.some.inj hs) (hstarts hbehind)

theorem stands_commentEnd? (rest : List Char) : Stands commentEnd? rest rest := by
  rw [funext commentEnd?_eq]
  exact ((stands_close rest).behind (by decide)).behind (by decide)

theorem stands_conditionalEnd? (rest : List Char) : Stands conditionalEnd? rest rest := by
  rw [funext conditionalEnd?_eq]
  exact (stands_close rest).behind (by decide)

theorem stands_keywordEnd? (rest : List Char) : Stands keywordEnd? rest rest := by
  have hstops : ∀ c ∈ ['/', '>'], ∀ u, conditionalEnd? (c :: u) = none := by
    intro c hc u
    have hne : c ≠ ']' := by
      rintro rfl
      revert hc
      decide
    exact conditionalEnd?_of_ne hne u
  rw [funext keywordEnd?_eq]
  exact ((stands_conditionalEnd? rest).blanks hstops).behind (by decide)

theorem spelling?_slashed {word : List Char} {b : Bool}
    (hword : ∀ w ∈ word, VoidElement.isForeign w = false) (h : SlashedTo rest b s t) :
    Option.Rel (fun x y => x.1 = y.1 ∧ SlashedTo rest b x.2 y.2) (Text.spelling? word s)
      (Text.spelling? word t) := by
  induction word generalizing s t with
  | nil => exact .some ⟨rfl, h⟩
  | cons w word ih =>
    obtain ⟨hw, hword⟩ := List.forall_mem_cons.mp hword
    have hnone {c : Char} (hc : VoidElement.isForeign c = true) (u : List Char) :
        Text.spelling? (w :: word) (c :: u) = none := by
      simp [Text.spelling?, VoidElement.not_isLike_of_isForeign hc hw]
    have hspace : VoidElement.isForeign ' ' = true := by decide
    have hclose : VoidElement.isForeign '>' = true := by decide
    cases h with
    | kept =>
      rw [hnone hclose]
      exact .none
    | last =>
      rw [hnone hclose, hnone hspace]
      exact .none
    | slash h =>
      rw [hnone hclose, hnone hspace]
      exact .none
    | @cons c _ s t h =>
      simp only [Text.spelling?]
      split
      · have hrel := ih hword h
        generalize Text.spelling? word s = x at hrel ⊢
        generalize Text.spelling? word t = y at hrel ⊢
        cases hrel with
        | none => exact .none
        | some hsame => exact .some ⟨congrArg (c :: ·) hsame.1, hsame.2⟩
      · exact .none

theorem stands_nameEnd? {name : List Char} (h : isLiteralElement name = true)
    (rest spelled : List Char) : Stands (nameEnd? name) rest (spelled, rest) := by
  have hletters := not_isForeign_of_literal h
  have hstops : ∀ c ∈ ['/', '>'], ∀ u, Text.spelling? name (c :: u) = none := by
    simp only [isLiteralElement, Bool.or_eq_true, beq_iff_eq] at h
    intro c hc u
    simp only [List.mem_cons, List.not_mem_nil, or_false] at hc
    rcases h with rfl | rfl <;> rcases hc with rfl | rfl <;> rfl
  have hblanks {s t : List Char} (h : SlashedTo rest false s t) :
      Option.Rel (fun x y => x.1 = y.1 ∧ SlashedTo rest false x.2 y.2)
        (Text.spelling? name (skipBlanks s)) (Text.spelling? name (skipBlanks t)) := by
    obtain h | ⟨s', t', hs', ht', -⟩ := h.skipBlanks
    · exact spelling?_slashed hletters h
    · rw [hs', ht', hstops '>' (by decide), hstops '/' (by decide)]
      exact .none
  constructor <;> intro s t h hs
  all_goals
    rw [nameEnd?] at hs ⊢
    have hrel := hblanks h
    generalize Text.spelling? name (skipBlanks s) = x at hrel hs
    generalize Text.spelling? name (skipBlanks t) = y at hrel
  · cases hrel with
    | none => rfl
    | some hsame =>
      rw [Option.map_eq_none_iff] at hs ⊢
      exact (stands_close rest).none_ hsame.2 hs
  · cases hrel with
    | none => cases hs
    | some hsame =>
      obtain ⟨after, hclose, he⟩ := Option.map_eq_some_iff.mp hs
      cases he
      simp only [(stands_close rest).some_ hsame.2 hclose, hsame.1, Option.map_some]

theorem behind_of_stop {c : Char} (hc : c ∉ [' ', '/', '>']) (look : List Char → Option α) :
    ∀ d ∈ [' ', '/', '>'], ∀ u, behind c look (d :: u) = none := by
  intro d hd u
  refine behind_of_ne ?_ look u
  rintro rfl
  exact hc hd

theorem cutAt_commentEnd?_slashed (h : SlashedTo rest false s t) {inner : List Char}
    (hcut : cutAt commentEnd? s = some (inner, rest)) :
    ∃ inner', cutAt commentEnd? t = some (inner', rest) := by
  refine cutAt_slashed (stands_commentEnd? rest) ?_ (not_cutAt_self length_lt_of_commentEnd? rest)
    h hcut
  rw [funext commentEnd?_eq]
  exact behind_of_stop (by decide) _

theorem cutAt_sectionEnd?_slashed {name : String} {look : List Char → Option (List Char)}
    (hname : sectionEnd? name = some look) (h : SlashedTo rest false s t) {inner : List Char}
    (hcut : cutAt look s = some (inner, rest)) :
    ∃ inner', cutAt look t = some (inner', rest) := by
  obtain rfl | rfl := sectionEnd?_cases hname
  · refine cutAt_slashed (stands_keywordEnd? rest) ?_ (not_cutAt_self length_lt_of_keywordEnd? rest)
      h hcut
    rw [funext keywordEnd?_eq]
    exact behind_of_stop (by decide) _
  · refine cutAt_slashed (stands_conditionalEnd? rest) ?_
      (not_cutAt_self length_lt_of_conditionalEnd? rest) h hcut
    rw [funext conditionalEnd?_eq]
    exact behind_of_stop (by decide) _

theorem cutAt_literalEnd?_slashed {name inner spelled : List Char}
    (hname : isLiteralElement name = true) (h : SlashedTo rest false s t)
    (hcut : cutAt (literalEnd? name) s = some (inner, spelled, rest)) :
    ∃ inner', cutAt (literalEnd? name) t = some (inner', spelled, rest) := by
  have hstands : Stands (literalEnd? name) rest (spelled, rest) := by
    rw [funext (literalEnd?_eq name)]
    exact ((stands_nameEnd? hname rest spelled).behind (by decide)).behind (by decide)
  refine cutAt_slashed hstands ?_ (fun inner hcut => ?_) h hcut
  · rw [funext (literalEnd?_eq name)]
    exact behind_of_stop (by decide) _
  · exact absurd (length_of_cut_literalEnd? hcut) (Nat.lt_irrefl _)

-- ---------------------------------------------------------------------------
-- Constructs

/-- Does what stands behind a `<` reach over a `>` outside of quotes? -/
def reachesOver : List Char → Bool
  | '!' :: '-' :: '-' :: _ => true
  | '!' :: '[' :: _ => true
  | _ => false

variable {b : Bool} {tokens : List Token} {literal : Option (List Char)}

theorem upToClose_slashed {token token' : List Char → List Token} (h : SlashedTo rest b s t)
    (hread : upToClose token s = .read tokens literal rest) :
    ∃ tokens', upToClose token' t = .read tokens' literal rest := by
  rw [upToClose] at hread ⊢
  split at hread
  · rename_i hcut
    cases hread
    obtain ⟨inner, ht⟩ := h.cutAtClose hcut
    exact ⟨token' inner, by rw [ht]⟩
  · cases hread

theorem sectionAt_slashed (h : SlashedTo rest false s t)
    (hread : sectionAt s = .read tokens literal rest) :
    ∃ tokens', sectionAt t = .read tokens' literal rest := by
  have hfull {b : Bool} {s t : List Char} (h : SlashedTo rest b s t) :
      s.isEmpty = false ∧ t.isEmpty = false := by
    cases h <;> exact ⟨rfl, rfl⟩
  have hletter : startsWithLetter t = startsWithLetter s := by
    cases h <;> rfl
  obtain ⟨htake, hdrop⟩ := h.takeWhile (p := isSectionNameChar) (by decide) (by decide)
  have hbehind : (skipBlanks (s.dropWhile isSectionNameChar)).isEmpty = false ∧
      (skipBlanks (t.dropWhile isSectionNameChar)).isEmpty = false := by
    obtain hdrop | ⟨s', t', hs, ht, -⟩ := hdrop.skipBlanks
    · exact hfull hdrop
    · exact ⟨by rw [hs]; rfl, by rw [ht]; rfl⟩
  simp only [sectionAt, (hfull h).1, hbehind.1, Bool.false_eq_true, if_false] at hread
  simp only [sectionAt, (hfull h).2, hbehind.2, hletter, ← htake, Bool.false_eq_true, if_false]
  split at hread
  · cases hread
  · rename_i hstarts
    rw [if_neg hstarts]
    split at hread
    · cases hread
    · rename_i look hname
      split at hread
      · rename_i hcut
        cases hread
        obtain ⟨inner, ht⟩ := cutAt_sectionEnd?_slashed hname h hcut
        exact ⟨_, by rw [ht]⟩
      · cases hread

theorem declarationAt_slashed (h : SlashedTo rest b s t)
    (hreaches : b = true → reachesOver ('!' :: s) = false)
    (hread : declarationAt s = .read tokens literal rest) :
    ∃ tokens', declarationAt t = .read tokens' literal rest := by
  have hfirm (hover : reachesOver ('!' :: s) = true) : b = false := by
    cases b with
    | false => rfl
    | true => cases hover.symm.trans (hreaches rfl)
  by_cases hcomment : ∃ u, s = '-' :: '-' :: u
  · obtain ⟨u, rfl⟩ := hcomment
    obtain rfl := hfirm rfl
    cases h with
    | cons _ h =>
      cases h with
      | cons _ h =>
        change commentAt u = _ at hread
        change ∃ tokens', commentAt _ = _
        rw [commentAt] at hread ⊢
        split at hread
        · rename_i hcut
          cases hread
          obtain ⟨inner, ht⟩ := cutAt_commentEnd?_slashed h hcut
          exact ⟨_, by rw [ht]⟩
        · cases hread
  by_cases hsection : ∃ u, s = '[' :: u
  · obtain ⟨u, rfl⟩ := hsection
    obtain rfl := hfirm rfl
    cases h with
    | cons _ h => exact sectionAt_slashed h hread
  have hcomment' : ∀ u, t ≠ '-' :: '-' :: u := by
    rintro u rfl
    cases h with
    | cons _ h =>
      cases h with
      | cons _ h => exact hcomment ⟨_, rfl⟩
  have hsection' : ∀ u, t ≠ '[' :: u := by
    rintro u rfl
    cases h with
    | cons _ h => exact hsection ⟨_, rfl⟩
  rw [declarationAt_other (fun u hu => hcomment ⟨u, hu⟩) (fun u hu => hsection ⟨u, hu⟩)] at hread
  rw [declarationAt_other hcomment' hsection']
  exact upToClose_slashed h hread

theorem startTagAt_slashed (h : SlashedTo rest b s t) (hampersand : '&' ∉ t)
    (hliteral : b = true → literal = none)
    (hread : startTagAt s = .read tokens literal rest) :
    ∃ tokens', startTagAt t = .read tokens' literal rest := by
  rw [startTagAt] at hread ⊢
  split at hread
  · rename_i tag rest' htag
    cases hread
    obtain ⟨tag', htag', hname, hclosed⟩ := OpenTag.read_slashed h hampersand htag
    refine ⟨[.startTag tag'], ?_⟩
    simp only [htag', hname]
    -- only where a literal element opens does it count whether the tag is closed
    cases hc : tag.closed with
    | true => rw [hclosed (.inr hc), hc]
    | false =>
      cases hl : isLiteralElement tag.name.toList with
      | false => simp
      | true =>
        cases b with
        | false => rw [hclosed (.inl rfl), hc]
        | true =>
          have hnone := hliteral rfl
          rw [hc, hl] at hnone
          cases hnone
  · cases hread
  · cases hread
  · rename_i hbroken
    cases hread
    obtain ⟨u, rfl⟩ := h.exists_eq
    exact absurd hbroken (OpenTag.read_ne_broken u rest)

/-- A construct with slashes put in is one of its kind, unless a slash is put right before the end of
one that does not end in just any `>`. -/
theorem constructAt_slashed (h : SlashedTo rest b s t) (hampersand : '&' ∉ t)
    (hfirm : b = true → reachesOver s = false ∧ literal = none)
    (hread : constructAt s = .read tokens literal rest) :
    ∃ tokens', constructAt t = .read tokens' literal rest := by
  have hnot {c : Char} {u : List Char} (hc : c ∉ ['/', '!', '?']) (halpha : c.isAlpha = false)
      (h : SlashedTo rest b (c :: u) t) : constructAt (c :: u) ≠ .read tokens literal rest := by
    rw [constructAt_of_other hc, halpha, if_neg Bool.false_ne_true]
    intro hread
    cases hread
    exact h.irrefl
  cases h with
  | kept => exact absurd hread (hnot (by decide) rfl .kept)
  | last => exact absurd hread (hnot (by decide) rfl .last)
  | slash h => exact absurd hread (hnot (by decide) rfl (.slash h))
  | @cons c _ s t h =>
    by_cases hc : c ∈ ['/', '!', '?']
    · simp only [List.mem_cons, List.not_mem_nil, or_false] at hc
      rcases hc with rfl | rfl | rfl
      · exact upToClose_slashed h hread
      · exact declarationAt_slashed h (fun hb => (hfirm hb).1) hread
      · exact upToClose_slashed h hread
    · cases halpha : c.isAlpha with
      | false => exact absurd hread (hnot hc halpha (.cons c h))
      | true =>
        rw [constructAt_of_other hc, if_pos halpha] at hread ⊢
        exact startTagAt_slashed (.cons c h) hampersand (fun hb => (hfirm hb).2) hread

end Token

end Mailgrid.Markup
