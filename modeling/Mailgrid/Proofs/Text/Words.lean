import Mailgrid.Text.Blank

/-!
# Words of a text

The words of texts with a blank between them are the words of the one and those
of the other, and a word is its own only word.
-/

namespace Mailgrid.Text

theorem words_cons (c : Char) (rest : List Char) :
    words (c :: rest) =
      if isBlank c then words rest
      else match rest, words rest with
        | d :: _, word :: others =>
          if isBlank d then [c] :: word :: others else (c :: word) :: others
        | _, others => [c] :: others := rfl

theorem words_of_blank {c : Char} (h : isBlank c = true) (rest : List Char) :
    words (c :: rest) = words rest := by
  rw [words_cons, if_pos h]

theorem words_single {c : Char} (h : isBlank c = false) : words [c] = [[c]] := by
  simp [words_cons, h, show words [] = [] from rfl]

theorem words_before_blank {c b : Char} (hc : isBlank c = false) (hb : isBlank b = true)
    (rest : List Char) : words (c :: b :: rest) = [c] :: words rest := by
  rw [words_cons, hc, words_of_blank hb]
  cases words rest with
  | nil => rfl
  | cons => simp [hb]

theorem words_before_letter {c d : Char} (hc : isBlank c = false) (hd : isBlank d = false)
    (rest : List Char) : ∃ word others, words (d :: rest) = word :: others ∧
      words (c :: d :: rest) = (c :: word) :: others := by
  cases hw : words (d :: rest) with
  | nil =>
    rw [words_cons, hd] at hw
    cases rest with
    | nil => cases hw
    | cons e rest =>
      cases hr : words (e :: rest) with
      | nil => simp [hr] at hw
      | cons word others =>
        cases he : isBlank e <;> simp [hr, he] at hw
  | cons word others =>
    refine ⟨word, others, rfl, ?_⟩
    rw [words_cons, hc, hw]
    simp [hd]

theorem words_append_blank (s : List Char) {b : Char} (hb : isBlank b = true) (t : List Char) :
    words (s ++ b :: t) = words s ++ words t := by
  induction s with
  | nil => exact words_of_blank hb t
  | cons c rest ih =>
    rw [List.cons_append]
    cases hc : isBlank c with
    | true => rw [words_of_blank hc, words_of_blank hc, ih]
    | false =>
      cases rest with
      | nil =>
        rw [List.nil_append, words_before_blank hc hb, words_single hc]
        rfl
      | cons d rest =>
        rw [List.cons_append] at ih ⊢
        cases hd : isBlank d with
        | true =>
          rw [words_of_blank hd, words_of_blank hd] at ih
          rw [words_before_blank hc hd, words_before_blank hc hd, ih]
          rfl
        | false =>
          obtain ⟨word, others, hw, hcw⟩ := words_before_letter hc hd (rest ++ b :: t)
          obtain ⟨word', others', hw', hcw'⟩ := words_before_letter hc hd rest
          rw [hw, hw'] at ih
          cases ih
          rw [hcw, hcw']
          rfl

theorem words_of_not_blank {s : List Char} (h : ∀ c ∈ s, isBlank c = false) (hne : s ≠ []) :
    words s = [s] := by
  induction s with
  | nil => exact absurd rfl hne
  | cons c rest ih =>
    simp only [List.mem_cons, forall_eq_or_imp] at h
    cases rest with
    | nil => exact words_single h.1
    | cons d rest =>
      obtain ⟨word, others, hw, hcw⟩ := words_before_letter h.1 (h.2 d (by simp)) rest
      rw [ih h.2 (by simp)] at hw
      cases hw
      exact hcw

theorem words_append_letter {front : List Char} (hf : ∀ c ∈ front, isBlank c = false) {d : Char}
    (hd : isBlank d = false) (rest : List Char) : ∃ word others,
      words (d :: rest) = (d :: word) :: others ∧
        words (front ++ d :: rest) = (front ++ d :: word) :: others := by
  induction front with
  | nil =>
    have h := words_cons d rest
    rw [hd, if_neg (by simp)] at h
    split at h
    · split at h <;> exact ⟨_, _, h, h⟩
    · exact ⟨_, _, h, h⟩
  | cons c front ih =>
    simp only [List.forall_mem_cons] at hf
    obtain ⟨word, others, hw, hfw⟩ := ih hf.2
    refine ⟨word, others, hw, ?_⟩
    cases front with
    | nil =>
      obtain ⟨word', others', hw', hcw⟩ := words_before_letter hf.1 hd rest
      rw [hw] at hw'
      cases hw'
      exact hcw
    | cons e front =>
      obtain ⟨word', others', hw', hcw⟩ :=
        words_before_letter hf.1 (hf.2 e List.mem_cons_self) (front ++ d :: rest)
      rw [List.cons_append] at hfw
      rw [hfw] at hw'
      cases hw'
      exact hcw

/-- Where blanks stay blanks and nothing else becomes one, words are changed one by one. -/
theorem words_map {change : Char → Char} (h : ∀ c, isBlank (change c) = isBlank c)
    (s : List Char) : words (s.map change) = (words s).map (List.map change) := by
  induction s with
  | nil => rfl
  | cons c rest ih =>
    rw [List.map_cons]
    cases hc : isBlank c with
    | true => rw [words_of_blank hc, words_of_blank ((h c).trans hc), ih]
    | false =>
      have hc' := (h c).trans hc
      cases rest with
      | nil => rw [words_single hc, List.map_nil, words_single hc']; rfl
      | cons d rest =>
        rw [List.map_cons] at ih ⊢
        cases hd : isBlank d with
        | true =>
          rw [words_of_blank hd, words_of_blank ((h d).trans hd)] at ih
          rw [words_before_blank hc hd, words_before_blank hc' ((h d).trans hd), ih]
          rfl
        | false =>
          obtain ⟨word, others, hw, hcw⟩ := words_before_letter hc hd rest
          obtain ⟨word', others', hw', hcw'⟩ :=
            words_before_letter hc' ((h d).trans hd) (rest.map change)
          rw [hw, hw', List.map_cons] at ih
          obtain ⟨rfl, rfl⟩ := List.cons.inj ih
          rw [hcw, hcw']
          rfl

theorem of_mem_words {s word : List Char} (h : word ∈ words s) :
    word ≠ [] ∧ ∀ c ∈ word, isBlank c = false ∧ c ∈ s := by
  induction s generalizing word with
  | nil => cases h
  | cons c rest ih =>
    have later {w : List Char} (hw : w ∈ words rest) :
        w ≠ [] ∧ ∀ d ∈ w, isBlank d = false ∧ d ∈ c :: rest :=
      ⟨(ih hw).1, fun d hd => ⟨((ih hw).2 d hd).1, List.mem_cons_of_mem _ ((ih hw).2 d hd).2⟩⟩
    cases hc : isBlank c with
    | true => exact later (words_of_blank hc rest ▸ h)
    | false =>
      cases rest with
      | nil =>
        rw [words_single hc] at h
        obtain rfl := List.mem_singleton.mp h
        exact ⟨by simp, by simpa using hc⟩
      | cons d rest =>
        cases hd : isBlank d with
        | true =>
          rw [words_before_blank hc hd] at h
          rcases List.mem_cons.mp h with rfl | h
          · exact ⟨by simp, by simpa using hc⟩
          · exact later (words_of_blank hd rest ▸ h)
        | false =>
          obtain ⟨w, others, hw, hcw⟩ := words_before_letter hc hd rest
          rw [hcw] at h
          rcases List.mem_cons.mp h with rfl | h
          · refine ⟨by simp, ?_⟩
            have hfirst := later (hw ▸ List.mem_cons_self)
            intro e he
            rcases List.mem_cons.mp he with rfl | he
            · exact ⟨hc, List.mem_cons_self⟩
            · exact hfirst.2 e he
          · exact later (hw ▸ List.mem_cons_of_mem _ h)

end Mailgrid.Text
