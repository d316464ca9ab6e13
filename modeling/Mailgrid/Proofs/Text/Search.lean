import Mailgrid.Text.Search

/-!
# Searching and replacing

What a substitution does at the start of a text, and where it changes nothing:
where nothing is found, and where each match is put back as it was.
-/

namespace Mailgrid.Text

variable {pattern : (s : List Char) → Option (Match (List Char) s)} {c : Char} {rest : List Char}

theorem substitute_nil (pattern : (s : List Char) → Option (Match (List Char) s)) :
    substitute pattern [] = [] := by
  rw [substitute, pieces]
  rfl

theorem substitute_of_none (h : pattern (c :: rest) = none) :
    substitute pattern (c :: rest) = c :: substitute pattern rest := by
  rw [substitute, pieces, h]
  rfl

theorem substitute_of_some {value behind : List Char} {shorter : behind.length < (c :: rest).length}
    (h : pattern (c :: rest) = some ⟨value, behind, shorter⟩) :
    substitute pattern (c :: rest) = value ++ substitute pattern behind := by
  rw [substitute, pieces, h]
  rfl

theorem substitute_of_match {s value behind : List Char} {shorter : behind.length < s.length}
    (h : pattern s = some ⟨value, behind, shorter⟩) :
    substitute pattern s = value ++ substitute pattern behind := by
  cases s with
  | nil => exact absurd shorter (Nat.not_lt_zero _)
  | cons c rest => exact substitute_of_some h

theorem replaceAll_char (c : Char) (new s : List Char) :
    replaceAll c [] new s = s.flatMap fun d => if d = c then new else [d] := by
  unfold replaceAll
  induction s with
  | nil => exact substitute_nil _
  | cons d rest ih =>
    rw [List.flatMap_cons, ← ih]
    by_cases hd : d = c
    · subst hd
      rw [if_pos rfl]
      have ha : after? [d] (d :: rest) = some rest := after?_append [d] rest
      refine @substitute_of_some _ d rest new rest (Nat.lt_succ_self _) ?_
      split
      · rename_i h
        cases ha.symm.trans h
        rfl
      · rename_i h
        cases ha.symm.trans h
    · rw [if_neg hd]
      refine substitute_of_none ?_
      split
      · rename_i h
        simp [after?, Ne.symm hd] at h
      · rfl

-- ---------------------------------------------------------------------------
-- Where nothing changes

theorem suffix_of_not_mem {a b s : List Char} (hc : c ∉ a) (h : c :: s <:+ a ++ b) :
    c :: s <:+ b := by
  induction a with
  | nil => exact h
  | cons d a ih =>
    simp only [List.mem_cons, not_or] at hc
    rcases List.suffix_cons_iff.mp h with he | h
    · exact absurd (List.cons.inj he).1 hc.1
    · exact ih hc.2 h

section
variable {α : Type} {look : (s : List Char) → Option (Match α s)}

theorem pieces_of_none {s : List Char} (h : ∀ t, t <:+ s → look t = none) :
    pieces look s = s.map .plain := by
  induction s with
  | nil =>
    rw [pieces]
    rfl
  | cons c rest ih =>
    rw [pieces, h _ List.suffix_rfl]
    exact congrArg _ (ih fun t ht => h t (ht.trans (List.suffix_cons c rest)))

theorem findAll_nil : findAll look [] = [] := by
  rw [findAll, pieces]
  rfl

theorem findAll_of_none (h : look (c :: rest) = none) :
    findAll look (c :: rest) = findAll look rest := by
  rw [findAll, pieces, h]
  rfl

theorem findAll_of_some {m : Match α (c :: rest)} (h : look (c :: rest) = some m) :
    findAll look (c :: rest) = m.value :: findAll look m.rest := by
  rw [findAll, pieces, h]
  rfl

end

/-- What is cut off at the first place stands before all others. -/
theorem cutAt_eq_some_iff {α : Type} {look : List Char → Option α} {s before : List Char}
    {a : α} :
    cutAt look s = some (before, a) ↔ ∃ after, s = before ++ after ∧ look after = some a ∧
      ∀ shorter longer b, s = shorter ++ longer → look longer = some b →
        before.length ≤ shorter.length := by
  induction s generalizing before with
  | nil =>
    rw [cutAt]
    constructor
    · intro h
      obtain ⟨b, hb, he⟩ := Option.map_eq_some_iff.mp h
      cases he
      exact ⟨[], rfl, hb, fun _ _ _ _ _ => Nat.zero_le _⟩
    · rintro ⟨after, he, ha, -⟩
      obtain ⟨rfl, rfl⟩ := List.append_eq_nil_iff.mp he.symm
      rw [ha]
      rfl
  | cons c s ih =>
    rw [cutAt]
    cases hl : look (c :: s) with
    | some b =>
      constructor
      · intro h
        cases h
        exact ⟨c :: s, rfl, hl, fun _ _ _ _ _ => Nat.zero_le _⟩
      · rintro ⟨after, he, ha, hfirst⟩
        have hbefore : before = [] := List.eq_nil_of_length_eq_zero
          (Nat.le_zero.mp (hfirst [] _ b rfl hl))
        subst hbefore
        rw [List.nil_append] at he
        rw [← he, hl] at ha
        cases ha
        rfl
    | none =>
      constructor
      · intro h
        obtain ⟨⟨before, a⟩, hb, he⟩ := Option.map_eq_some_iff.mp h
        cases he
        obtain ⟨after, rfl, ha, hfirst⟩ := ih.mp hb
        refine ⟨after, rfl, ha, fun shorter longer b he hb => ?_⟩
        cases shorter with
        | nil =>
          rw [List.nil_append] at he
          rw [← he, hl] at hb
          cases hb
        | cons d shorter =>
          exact Nat.succ_le_succ (hfirst shorter longer b (List.cons.inj he).2 hb)
      · rintro ⟨after, he, ha, hfirst⟩
        cases before with
        | nil =>
          rw [List.nil_append] at he
          rw [← he, hl] at ha
          cases ha
        | cons d before =>
          obtain ⟨rfl, htail⟩ := List.cons.inj he
          have hb : cutAt look s = some (before, a) :=
            ih.mpr ⟨after, htail, ha, fun shorter longer b he hb =>
              Nat.le_of_succ_le_succ (hfirst (c :: shorter) longer b (congrArg (c :: ·) he) hb)⟩
          dsimp only
          rw [hb]
          rfl

theorem cutAtChar_of_not_mem {c : Char} {s : List Char} (h : c ∉ s) : cutAtChar c s = none := by
  cases hcut : cutAtChar c s with
  | none => rfl
  | some parts => exact absurd (by simp [append_of_cutAtChar hcut]) h

theorem cutAtChar_behind {c : Char} {before : List Char} (h : c ∉ before) (s : List Char) :
    cutAtChar c (before ++ s) =
      (cutAtChar c s).map fun (inside, after) => (before ++ inside, after) := by
  induction before with
  | nil => simp
  | cons d before ih =>
    simp only [List.mem_cons, not_or] at h
    rw [List.cons_append, cutAtChar, if_neg (Ne.symm h.1), ih h.2, Option.map_map]
    rfl

theorem look_of_cutAt_none {α : Type} {look : List Char → Option α} {s : List Char}
    (h : cutAt look s = none) : ∀ t, t <:+ s → look t = none := by
  induction s with
  | nil =>
    intro t ht
    obtain rfl := List.suffix_nil.mp ht
    exact Option.map_eq_none_iff.mp h
  | cons c s ih =>
    rw [cutAt] at h
    split at h
    · cases h
    · rename_i hnone
      intro t ht
      rcases List.suffix_cons_iff.mp ht with rfl | ht
      · exact hnone
      · exact ih (Option.map_eq_none_iff.mp h) t ht

theorem substitute_eq_self {s : List Char}
    (h : ∀ t m, t <:+ s → pattern t = some m → m.value ++ m.rest = t) :
    substitute pattern s = s := by
  induction s using pieces.induct pattern with
  | case1 => exact substitute_nil pattern
  | case2 c rest m hm ih =>
    have hback : m.value ++ m.rest = c :: rest := h _ m List.suffix_rfl hm
    have hrest : m.rest <:+ c :: rest := ⟨m.value, hback⟩
    rw [substitute_of_some hm, ih fun t n ht => h t n (ht.trans hrest), hback]
  | case3 c rest hn ih =>
    rw [substitute_of_none hn, ih fun t n ht => h t n (ht.trans (List.suffix_cons c rest))]

end Mailgrid.Text
