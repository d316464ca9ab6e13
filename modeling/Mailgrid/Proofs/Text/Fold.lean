import Mailgrid.Text.Fold
import Mailgrid.Text.Blank

/-!
# Words alike but for case

Letters of ASCII that are alike differ in case only. So a word that is found at
the start of a name is the first part of that name, in the name's spelling.
-/

namespace Mailgrid.Text

variable {word name spelled after rest : List Char} {c d w : Char}

theorem foldKey_of_ascii (h : c.toNat < 0x80) : foldKey c = c.toLower := by
  unfold foldKey
  rw [if_neg, if_neg]
  · rintro rfl
    exact absurd h (by decide)
  · rintro rfl
    exact absurd h (by decide)

theorem toLower_of_isLike (hc : c.toNat < 0x80) (h : isLike w c = true) : c.toLower = w := by
  simp only [isLike, foldKey_of_ascii hc, Bool.or_eq_true, Bool.and_eq_true, beq_iff_eq] at h
  rcases h with (h | ⟨-, rfl⟩) | ⟨-, rfl⟩
  · exact h
  · exact absurd hc (by decide)
  · exact absurd hc (by decide)

theorem of_spelling?_name (hn : ∀ c ∈ name, c.toNat < 0x80) (hd : ∀ w ∈ word, isLike w d = false)
    (h : spelling? word (name ++ d :: rest) = some (spelled, after)) :
    ∃ more, name = spelled ++ more ∧ after = more ++ d :: rest ∧ spelled.map Char.toLower = word := by
  induction word generalizing name spelled with
  | nil =>
    cases h
    exact ⟨name, rfl, rfl, rfl⟩
  | cons w word ih =>
    simp only [List.forall_mem_cons] at hd
    cases name with
    | nil =>
      simp only [List.nil_append, spelling?, hd.1] at h
      cases h
    | cons c name =>
      simp only [List.forall_mem_cons] at hn
      simp only [List.cons_append, spelling?] at h
      split at h
      · rename_i hc
        obtain ⟨⟨spelled, after⟩, hs, he⟩ := Option.map_eq_some_iff.mp h
        cases he
        obtain ⟨more, rfl, rfl, rfl⟩ := ih hn.2 hd.2 hs
        refine ⟨more, rfl, rfl, ?_⟩
        rw [List.map_cons, toLower_of_isLike hn.1 hc]
      · cases h

theorem of_afterFolded?_name (hw : ∀ w ∈ word, w.toNat < 0x80 ∧ w.toLower ≠ foldKey d)
    (hn : ∀ c ∈ name, c.toNat < 0x80) (h : afterFolded? word (name ++ d :: rest) = some after) :
    ∃ first more, name = first ++ more ∧ after = more ++ d :: rest ∧
      first.map Char.toLower = word.map Char.toLower := by
  induction word generalizing name with
  | nil =>
    cases h
    exact ⟨[], name, rfl, rfl, rfl⟩
  | cons w word ih =>
    simp only [List.forall_mem_cons] at hw
    obtain ⟨⟨hascii, hne⟩, hw⟩ := hw
    cases name with
    | nil =>
      simp only [List.nil_append, afterFolded?, foldKey_of_ascii hascii, if_neg hne] at h
      cases h
    | cons c name =>
      simp only [List.forall_mem_cons] at hn
      simp only [List.cons_append, afterFolded?, foldKey_of_ascii hascii,
        foldKey_of_ascii hn.1] at h
      split at h
      · rename_i hc
        obtain ⟨first, more, rfl, rfl, he⟩ := ih hw hn.2 h
        exact ⟨c :: first, more, rfl, rfl, by rw [List.map_cons, List.map_cons, he, hc]⟩
      · cases h

theorem eq_nil_of_skipBlanks {more tail : List Char}
    (hm : ∀ c ∈ more, isBlank c = false ∧ c ≠ d) (h : skipBlanks (more ++ rest) = d :: tail) :
    more = [] := by
  cases more with
  | nil => rfl
  | cons c more =>
    obtain ⟨hb, hne⟩ := hm c List.mem_cons_self
    rw [List.cons_append, skipBlanks_of_not_blank hb] at h
    exact absurd (List.cons.inj h).1 hne

end Mailgrid.Text
