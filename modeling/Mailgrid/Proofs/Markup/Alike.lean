import Mailgrid.Proofs.Markup.Respelled
import Mailgrid.Proofs.VoidElement.AnyCase

/-!
# Spellings of components

The names of components are not among those that are written, but for centers.
So it makes no difference to what is written how they are spelled: the names of
all else that is found in a text, and the spellings it gives them, are the same.
-/

namespace Mailgrid.Markup.Spelling

open Mailgrid.Text (isBlank skipBlanks cutAtChar)

variable {c : Char} {s t u v name name' : List Char} {kind : Component}

/-- Two texts that differ in the case of letters in names of components, right behind a `<` or a `/`,
if at all. -/
inductive Alike : List Char → List Char → Prop where
  | nil : Alike [] []
  | cons (c : Char) {s t : List Char} : Alike s t → Alike (c :: s) (c :: t)
  | name {c : Char} {kind : Component} {name name' u v : List Char} (sign : c = '<' ∨ c = '/')
    (component : kind ≠ .center) (spelled : kind.IsSpelled name) (respelled : kind.IsSpelled name')
    (apart : u.takeWhile isNameChar = []) :
    Alike u v → Alike (c :: (name ++ u)) (c :: (name' ++ v))

/-- The same name, or one of a component in another case. -/
def SameName (a b : List Char) : Prop :=
  b = a ∨ ∃ kind : Component, kind ≠ .center ∧ kind.IsSpelled a ∧ kind.IsSpelled b

theorem name?_component (h : kind.IsSpelled name) (apart : u.takeWhile isNameChar = []) :
    skipBlanks (name ++ u) = name ++ u ∧ name? (name ++ u) = some name := by
  obtain ⟨c, more, rfl, hc⟩ := h.exists_letter
  have hletters : ∀ d ∈ more, isNameChar d = true := fun d hd =>
    isNameChar_of_letter (h.isNameLetter d (List.mem_cons_of_mem c hd))
  have hblank : isBlank c = false := (of_isNameLetter (h.isNameLetter c List.mem_cons_self)).2.2.2.1
  constructor
  · exact Text.skipBlanks_of_not_blank hblank _
  · rw [List.cons_append, name?, if_pos hc, List.takeWhile_append_of_pos hletters, apart,
      List.append_nil]

theorem endTag?_component (h : kind.IsSpelled name) (apart : u.takeWhile isNameChar = []) :
    endTag? ('<' :: (name ++ u)) = none := by
  obtain ⟨c, more, rfl, hc⟩ := h.exists_letter
  rw [endTag?, (name?_component h apart).1]
  split
  · rename_i he
    rw [List.cons_append] at he
    rw [(List.cons.inj he).1] at hc
    cases hc
  · rfl

namespace Alike

theorem refl : ∀ s, Alike s s
  | [] => .nil
  | c :: s => .cons c (refl s)

theorem behind (h : Alike s t) : ∀ u, Alike (u ++ s) (u ++ t)
  | [] => h
  | c :: u => .cons c (h.behind u)

theorem takeWhile {p : Char → Bool} (hopen : p '<' = false) (hslash : p '/' = false)
    (h : Alike s t) : t.takeWhile p = s.takeWhile p ∧ Alike (s.dropWhile p) (t.dropWhile p) := by
  induction h with
  | nil => exact ⟨rfl, .nil⟩
  | cons c h ih =>
    simp only [List.takeWhile_cons, List.dropWhile_cons]
    split
    · exact ⟨congrArg (c :: ·) ih.1, ih.2⟩
    · exact ⟨rfl, .cons c h⟩
  | @name c _ _ _ _ _ sign component spelled respelled apart h =>
    have hstop : p c = false := by
      rcases sign with rfl | rfl <;> assumption
    simpa [hstop] using name sign component spelled respelled apart h

theorem skipBlanks (h : Alike s t) : Alike (skipBlanks s) (skipBlanks t) :=
  (h.takeWhile rfl rfl).2

theorem name? (h : Alike s t) : name? t = name? s := by
  cases h with
  | nil => rfl
  | cons c h => rw [Spelling.name?, Spelling.name?, (h.takeWhile rfl rfl).1]
  | name sign =>
    rcases sign with rfl | rfl <;> rfl

theorem behindName (h : Alike s t) (hname : Spelling.name? s = some name) :
    Alike (s.drop name.length) (t.drop name.length) := by
  obtain ⟨c, u, hu, hc, hdrop⟩ := drop_name hname
  obtain ⟨d, v, hv, -, hdrop'⟩ := drop_name (h.name?.trans hname)
  rw [hdrop, hdrop']
  rw [hu, hv] at h
  cases h with
  | cons _ h => exact (h.takeWhile rfl rfl).2
  | name sign => rcases sign with rfl | rfl <;> cases hc

/-- No quote stands in a name, so the same is in quotes in both texts but for names. -/
theorem cutAtChar {quote : Char} (hquote : quote = '"' ∨ quote = '\'') (h : Alike s t) :
    (cutAtChar quote s = none ∧ Text.cutAtChar quote t = none) ∨
      ∃ inside after inside' after', Text.cutAtChar quote s = some (inside, after) ∧
        Text.cutAtChar quote t = some (inside', after') ∧ Alike after after' := by
  induction h with
  | nil => exact .inl ⟨rfl, rfl⟩
  | @cons c s t h ih =>
    by_cases hc : c = quote
    · simp only [Text.cutAtChar, hc, if_true]
      exact .inr ⟨_, _, _, _, rfl, rfl, h⟩
    · simp only [Text.cutAtChar, if_neg hc]
      obtain ⟨hs, ht⟩ | ⟨inside, after, inside', after', hs, ht, hafter⟩ := ih
      · exact .inl ⟨by rw [hs]; rfl, by rw [ht]; rfl⟩
      · exact .inr ⟨c :: inside, after, c :: inside', after', by rw [hs]; rfl, by rw [ht]; rfl,
          hafter⟩
  | @name c kind name name' u v sign component spelled respelled apart h ih =>
    have hnone {name : List Char} (h : kind.IsSpelled name) : quote ∉ c :: name := by
      have hletter : isNameLetter quote = false := by rcases hquote with rfl | rfl <;> rfl
      have hsign : quote ≠ c := by
        rcases hquote with rfl | rfl <;> rcases sign with rfl | rfl <;> decide
      simp [hsign, h.not_mem hletter]
    rw [← List.cons_append, ← List.cons_append, Text.cutAtChar_behind (hnone spelled),
      Text.cutAtChar_behind (hnone respelled)]
    obtain ⟨hs, ht⟩ | ⟨inside, after, inside', after', hs, ht, hafter⟩ := ih
    · exact .inl ⟨by rw [hs]; rfl, by rw [ht]; rfl⟩
    · exact .inr ⟨_, after, _, after', by rw [hs]; rfl, by rw [ht]; rfl, hafter⟩

/-- Two rests of tags, with what follows them. -/
def Rest (x y : List Char × List Char) : Prop :=
  Alike x.1 y.1 ∧ Alike x.2 y.2

theorem unquotedRest? (h : Alike s t) :
    Option.Rel Rest (unquotedRest? s) (Spelling.unquotedRest? t) := by
  induction hn : s.length using Nat.strongRecOn generalizing s t with
  | ind n ih =>
    subst hn
    have hmap {held held' : List Char → List Char} {s t : List Char}
        (hheld : ∀ {x rest y}, Spelling.unquotedRest? s = some (x, rest) → Alike x y →
          Alike (held x) (held' y))
        (h : Option.Rel Rest (Spelling.unquotedRest? s) (Spelling.unquotedRest? t)) :
        Option.Rel Rest ((Spelling.unquotedRest? s).map fun x => (held x.1, x.2))
          ((Spelling.unquotedRest? t).map fun x => (held' x.1, x.2)) := by
      generalize Spelling.unquotedRest? t = y at h ⊢
      cases hx : Spelling.unquotedRest? s with
      | none =>
        rw [hx] at h
        cases h
        exact .none
      | some x =>
        rw [hx] at h
        cases h with
        | some h => exact .some ⟨hheld hx h.1, h.2⟩
    cases h with
    | nil =>
      rw [Spelling.unquotedRest?]
      exact .none
    | @cons c s t h =>
      by_cases hclose : c = '>'
      · subst hclose
        rw [Spelling.unquotedRest?, Spelling.unquotedRest?, if_pos rfl, if_pos rfl]
        exact .some ⟨.nil, h⟩
      by_cases hquote : c = '"' ∨ c = '\''
      · obtain ⟨hs, ht⟩ | ⟨inside, after, inside', after', hs, ht, hafter⟩ := h.cutAtChar hquote
        · rw [unquotedRest?_unclosed hquote hs, unquotedRest?_unclosed hquote ht]
          exact .none
        · rw [unquotedRest?_quoted hquote hs, unquotedRest?_quoted hquote ht]
          have hlength : after.length < (c :: s).length := by
            rw [Text.append_of_cutAtChar hs]
            simp
            omega
          exact hmap (fun _ => .cons ' ') (ih after.length hlength hafter rfl)
      · rw [Spelling.unquotedRest?, Spelling.unquotedRest?, if_neg hclose, if_neg hclose,
          if_neg hquote, if_neg hquote]
        exact hmap (fun _ => .cons c) (ih s.length (Nat.lt_succ_self _) h rfl)
    | @name c kind name name' u v sign component spelled respelled apart h =>
      have hfree {name : List Char} (h : kind.IsSpelled name) :
          ∀ d ∈ c :: name, d ∉ ['>', '"', '\''] := by
        refine List.forall_mem_cons.mpr ⟨?_, fun d hd => not_quote_of_letter (h.isNameLetter d hd)⟩
        rcases sign with rfl | rfl <;> decide
      have hlength : u.length < (c :: (name ++ u)).length := by
        simp only [List.length_cons, List.length_append]
        omega
      rw [← List.cons_append, ← List.cons_append, unquotedRest?_append (hfree spelled),
        unquotedRest?_append (hfree respelled)]
      refine hmap (fun hx h => ?_) (ih u.length hlength h rfl)
      exact .name sign component spelled respelled ((of_unquotedRest? hx).2.1.trans apart) h

theorem apart (h : Alike s t) (hs : s.takeWhile isNameChar = []) : t.takeWhile isNameChar = [] :=
  (h.takeWhile rfl rfl).1.trans hs

-- ---------------------------------------------------------------------------
-- Names that are found

/-- The name of a start tag, the rest of the tag without its values, and what follows. -/
def Found (x y : List Char × List Char × List Char) : Prop :=
  SameName x.1 y.1 ∧ Rest x.2 y.2

theorem startTag? (h : Alike s t) : Option.Rel Found (startTag? s) (Spelling.startTag? t) := by
  cases h with
  | nil => exact .none
  | @cons c s t h =>
    by_cases hc : c = '<'
    · subst hc
      simp only [Spelling.startTag?, h.skipBlanks.name?]
      cases hname : Spelling.name? (Text.skipBlanks s) with
      | none => exact .none
      | some name =>
        have hrest := (h.skipBlanks.behindName hname).unquotedRest?
        dsimp only
        generalize Spelling.unquotedRest? ((Text.skipBlanks s).drop name.length) = x at hrest ⊢
        generalize Spelling.unquotedRest? ((Text.skipBlanks t).drop name.length) = y at hrest ⊢
        cases hrest with
        | none => exact .none
        | some hrest => exact .some ⟨.inl rfl, hrest⟩
    · rw [startTag?_of_ne hc, startTag?_of_ne hc]
      exact .none
  | @name c kind name name' u v sign component spelled respelled apart h =>
    rcases sign with rfl | rfl
    · obtain ⟨hstart, hname⟩ := name?_component spelled apart
      obtain ⟨hstart', hname'⟩ := name?_component respelled (h.apart apart)
      have hrest := h.unquotedRest?
      simp only [Spelling.startTag?, hstart, hstart', hname, hname', List.drop_left]
      generalize Spelling.unquotedRest? u = x at hrest ⊢
      generalize Spelling.unquotedRest? v = y at hrest ⊢
      cases hrest with
      | none => exact .none
      | some hrest => exact .some ⟨.inr ⟨kind, component, spelled, respelled⟩, hrest⟩
    · exact .none

theorem endTag? (h : Alike s t) : Option.Rel SameName (endTag? s) (Spelling.endTag? t) := by
  have hsame {x y : Option (List Char)} (h : y = x) : Option.Rel SameName x y := by
    subst h
    cases y with
    | none => exact .none
    | some a => exact .some (.inl rfl)
  cases h with
  | nil => exact .none
  | @cons c s t h =>
    by_cases hc : c = '<'
    · subst hc
      have hblanks := h.skipBlanks
      rw [Spelling.endTag?, Spelling.endTag?]
      generalize Text.skipBlanks s = x at hblanks ⊢
      generalize Text.skipBlanks t = y at hblanks ⊢
      cases hblanks with
      | nil => exact .none
      | @cons d x y h =>
        by_cases hd : d = '/'
        · subst hd
          exact hsame h.skipBlanks.name?
        · -- neither text goes on with a slash
          have hother {a b : List Char} (h : d :: a = '/' :: b) : False :=
            hd (List.cons.inj h).1
          split
          · rename_i he
            exact (hother he).elim
          · split
            · rename_i he
              exact (hother he).elim
            · exact .none
      | @name d kind name name' u v sign component spelled respelled apart h =>
        rcases sign with rfl | rfl
        · exact .none
        · obtain ⟨hstart, hname⟩ := name?_component spelled apart
          obtain ⟨hstart', hname'⟩ := name?_component respelled (h.apart apart)
          simp only [hstart, hstart', hname, hname']
          exact .some (.inr ⟨kind, component, spelled, respelled⟩)
    · rw [endTag?_of_ne hc, endTag?_of_ne hc]
      exact .none
  | name sign _ spelled respelled apart h =>
    rcases sign with rfl | rfl
    · exact hsame ((endTag?_component respelled (h.apart apart)).trans
        (endTag?_component spelled apart).symm)
    · exact .none

theorem attribute? (h : Alike s t) : Spelling.attribute? t = Spelling.attribute? s := by
  cases h with
  | nil => rfl
  | cons b h =>
    cases h with
    | nil => rfl
    | cons c h => rw [Spelling.attribute?, Spelling.attribute?, (h.takeWhile rfl rfl).1]
    | name sign => rcases sign with rfl | rfl <;> simp [Spelling.attribute?]
  | name sign =>
    have hblank : isBlank '<' = false ∧ isBlank '/' = false := ⟨rfl, rfl⟩
    rcases sign with rfl | rfl
    · rw [attribute?_of_not_blank hblank.1, attribute?_of_not_blank hblank.1]
    · rw [attribute?_of_not_blank hblank.2, attribute?_of_not_blank hblank.2]

theorem attributes (h : Alike s t) :
    everywhere Spelling.attribute? t = everywhere Spelling.attribute? s := by
  induction h with
  | nil => rfl
  | cons c h ih =>
    rw [everywhere, everywhere, (cons c h).attribute?, ih]
  | @name c kind name name' u v sign component spelled respelled apart h ih =>
    have hfree {name : List Char} (h : kind.IsSpelled name) :
        ∀ d ∈ c :: name, isBlank d = false := by
      refine List.forall_mem_cons.mpr
        ⟨?_, fun d hd => (of_isNameLetter (h.isNameLetter d hd)).2.2.2.1⟩
      rcases sign with rfl | rfl <;> rfl
    rw [← List.cons_append, ← List.cons_append, everywhere_of_not_blank (hfree spelled),
      everywhere_of_not_blank (hfree respelled), ih]

theorem endTags (h : Alike s t) :
    List.Forall₂ SameName (everywhere Spelling.endTag? s) (everywhere Spelling.endTag? t) := by
  have hbehind {s t : List Char} {names names' : List (List Char)}
      (h : Option.Rel SameName (Spelling.endTag? s) (Spelling.endTag? t))
      (hrest : List.Forall₂ SameName names names') :
      List.Forall₂ SameName ((Spelling.endTag? s).toList ++ names)
        ((Spelling.endTag? t).toList ++ names') := by
    generalize Spelling.endTag? s = x at h ⊢
    generalize Spelling.endTag? t = y at h ⊢
    cases h with
    | none => exact hrest
    | some h => exact .cons h hrest
  induction h with
  | nil => exact .nil
  | cons c h ih => exact hbehind (cons c h).endTag? ih
  | @name c kind name name' u v sign component spelled respelled apart h ih =>
    have hrest {name : List Char} (h : kind.IsSpelled name) (u : List Char) :
        everywhere Spelling.endTag? (name ++ u) = everywhere Spelling.endTag? u :=
      everywhere_of_not_mem (fun c s hc => endTag?_of_ne hc) (h.not_mem rfl) u
    rw [everywhere, everywhere, hrest spelled, hrest respelled]
    exact hbehind (Alike.name sign component spelled respelled apart h).endTag? ih

theorem startTags (h : Alike s t) : List.Forall₂ (fun x y => SameName x.1 y.1 ∧ Alike x.2 y.2)
    (startTags s) (Spelling.startTags t) := by
  induction hn : s.length using Nat.strongRecOn generalizing s t with
  | ind n ih =>
    subst hn
    have hfound := h.startTag?
    generalize hx : Spelling.startTag? s = x at hfound
    generalize hy : Spelling.startTag? t = y at hfound
    cases hfound with
    | some hsame =>
      rw [startTags_of_some hx, startTags_of_some hy]
      exact .cons ⟨hsame.1, hsame.2.1⟩ (ih _ (length_of_startTag? hx) hsame.2.2 rfl)
    | none =>
      cases h with
      | nil =>
        rw [startTags_nil]
        exact .nil
      | cons c h =>
        rw [startTags_of_none hx, startTags_of_none hy]
        exact ih _ (Nat.lt_succ_self _) h rfl
      | @name c kind name name' u v sign component spelled respelled apart h =>
        have hlength : u.length < (c :: (name ++ u)).length := by
          simp only [List.length_cons, List.length_append]
          omega
        rw [startTags_of_none hx, startTags_of_none hy, startTags_of_not_mem (spelled.not_mem rfl),
          startTags_of_not_mem (respelled.not_mem rfl)]
        exact ih u.length hlength h rfl

end Alike

-- ---------------------------------------------------------------------------
-- Spellings

theorem found_alike (h : Alike s t) :
    List.Forall₂ SameName (foundTags s) (foundTags t) ∧ foundAttributes t = foundAttributes s := by
  constructor
  · refine List.rel_append ?_ h.endTags
    exact List.forall₂_map_left_iff.mpr (List.forall₂_map_right_iff.mpr
      (h.startTags.imp fun _ _ hsame => hsame.1))
  · have hfound := h.startTags
    rw [foundAttributes, foundAttributes]
    generalize startTags s = x at hfound
    generalize startTags t = y at hfound
    induction hfound with
    | nil => rfl
    | cons hsame _ ih => rw [List.flatMap_cons, List.flatMap_cons, ih, hsame.2.attributes]

/-- A name that is none of a component has the same spelling in both texts. -/
theorem first_same {names names' : List (List Char)} (h : List.Forall₂ SameName names names')
    {key : String} (free : ∀ kind : Component, key = kind.standardTag → kind = .center) :
    first names' key = first names key := by
  have hother {kind : Component} (component : kind ≠ .center) {a : List Char}
      (ha : kind.IsSpelled a) : isSpellingOf key a = false := by
    rw [← Bool.not_eq_true, isSpellingOf_iff, nameOf, ha.lower, String.ofList_toList]
    exact fun hkey => component (free kind hkey.2.symm)
  rw [first, first]
  refine congrArg (fun found => (Option.map String.ofList found).getD key) ?_
  induction h with
  | nil => rfl
  | cons hsame _ ih =>
    obtain rfl | ⟨kind, component, ha, hb⟩ := hsame
    · rw [List.find?_cons, List.find?_cons, ih]
    · rw [List.find?_cons, List.find?_cons, hother component ha, hother component hb]
      exact ih

end Mailgrid.Markup.Spelling
