import Mailgrid.Text.Blank
import Mailgrid.Text.Case

/-!
# Texts in lower case

What the lower case of a text is made of has no other lower case, so a text in
lower case is its own; and no blank or sign is in it that was not there before.
Both are read off the runs of the table: where one leads no other begins anew.
-/

namespace Mailgrid.Text

/-- Is a number of a character one that the run moves? -/
def CaseRun.has (r : CaseRun) (n : Nat) : Bool :=
  r.first ≤ n && n ≤ r.last && (n - r.first) % r.stride == 0

/-- Does a run have none of the numbers from `first` to `last`, or of every second one of them? The
checks are on numbers alone, which the kernel computes with. -/
def CaseRun.isApart (r : CaseRun) (first last : Nat) (second : Bool) : Bool :=
  Nat.blt last r.first || (Nat.blt r.last first ||
    (r.stride == 2 && second && (first + r.first) % 2 == 1))

/-- In lower case, wherever it stands. -/
def IsLower (c : Char) : Prop :=
  ∀ before after, lowerAt before c after = [c]

/-- No blank, and in ASCII a letter. -/
def IsLetterly (c : Char) : Prop :=
  isBlank c = false ∧ (c.toNat < 0x80 → c.isLower = true)

variable {r : CaseRun} {runs : List CaseRun} {c d : Char} {n : Nat} {s before after : List Char}

-- ---------------------------------------------------------------------------
-- Runs

theorem of_has (h : r.has n = true) :
    r.first ≤ n ∧ n ≤ r.last ∧ (n - r.first) % r.stride = 0 := by
  simpa [CaseRun.has, and_assoc] using h

theorem moveBy_of_not_has (h : ∀ r ∈ runs, r.has c.toNat = false) : moveBy runs c = c := by
  have hnone : runs.find? (·.has c.toNat) = none := by simpa using h
  simp only [CaseRun.has] at hnone
  simp only [moveBy, hnone]

theorem moveBy_cases (runs : List CaseRun) (c : Char) :
    (∀ r ∈ runs, r.has c.toNat = false) ∨
      ∃ r ∈ runs, r.has c.toNat = true ∧ moveBy runs c = Char.ofNat (c.toNat + r.shift).toNat := by
  cases hfound : runs.find? (·.has c.toNat) with
  | none => exact .inl (by simpa using hfound)
  | some r =>
    have hhas : r.has c.toNat = true := by simpa using List.find?_some hfound
    refine .inr ⟨r, List.mem_of_find?_eq_some hfound, hhas, ?_⟩
    simp only [CaseRun.has] at hfound
    simp only [moveBy, hfound]

/-- Where the runs of the table lead: to single letters of ASCII, or to numbers beyond it, none of
which is one of a blank, of a surrogate or of the letter that becomes two. -/
theorem of_lowerRuns : ∀ r ∈ lowerRuns, r.last < 0x80 ∨
    r.first = r.last ∧ 97 ≤ r.first + r.shift ∧ r.first + r.shift ≤ 122 ∨
    0x80 ≤ r.first + r.shift ∧ (r.last + r.shift < 0xD800 ∨ 0xDFFF < r.first + r.shift) ∧
      r.last + r.shift < 0x110000 ∧ (r.last + r.shift < 0x2000 ∨ 0x200A < r.first + r.shift) ∧
        ∀ n ∈ ([0x85, 0xA0, 0x130, 0x1680, 0x2028, 0x2029, 0x202F, 0x205F, 0x3000] : List Int),
          r.last + r.shift < n ∨ n < r.first + r.shift := by
  decide +kernel

theorem not_has_of_has (hr : r ∈ lowerRuns) (hn : 0x80 ≤ n) (h : r.has n = true) :
    ∀ q ∈ lowerRuns, q.has (n + r.shift).toNat = false := by
  have happart : lowerRuns.all (fun r => Nat.ble r.last 0x7f || lowerRuns.all
      (·.isApart (r.first + r.shift).toNat (r.last + r.shift).toNat
        (r.stride == 2 || r.first == r.last))) = true := by
    decide +kernel
  simp only [List.all_eq_true, Bool.or_eq_true, CaseRun.isApart, Nat.blt_eq, Nat.ble_eq,
    Bool.and_eq_true, beq_iff_eq] at happart
  obtain ⟨hfirst, hlast, hstride⟩ := of_has h
  have hlands : 0 ≤ r.first + r.shift := by
    rcases of_lowerRuns r hr with hascii | ⟨-, hlow, -⟩ | ⟨hlow, -⟩ <;> omega
  intro q hq
  rw [Bool.eq_false_iff]
  intro hhas
  obtain ⟨hfirst', hlast', hstride'⟩ := of_has hhas
  rcases (happart r hr).resolve_left (by omega) q hq with hbefore | hbehind | ⟨⟨hq2, hr2⟩, hodd⟩
  · omega
  · omega
  · rw [hq2] at hstride'
    rcases hr2 with hr2 | hsingle
    · rw [hr2] at hstride
      omega
    · omega

theorem toNat_ofNat_of_valid {m : Nat} (h : m.isValidChar) : (Char.ofNat m).toNat = m := by
  rw [Char.ofNat, dif_pos h]
  rfl

theorem of_moved (hr : r ∈ lowerRuns) (hn : 0x80 ≤ n) (h : r.has n = true)
    (hd : d = Char.ofNat (n + r.shift).toNat) :
    d.toNat = (n + r.shift).toNat ∧ d ≠ 'İ' ∧ IsLetterly d := by
  obtain ⟨hfirst, hlast, -⟩ := of_has h
  rcases of_lowerRuns r hr with
    hascii | ⟨hsingle, hlow, hhigh⟩ | ⟨hlow, hsurrogates, hhigh, hspaces, hothers⟩
  · omega
  · have hletters : ∀ m < 123, 97 ≤ m → (Char.ofNat m).toNat = m ∧ Char.ofNat m ≠ 'İ' ∧
        isBlank (Char.ofNat m) = false ∧ (Char.ofNat m).isLower = true := by decide
    obtain ⟨hnat, hne, hblank, hlower⟩ := hletters (n + r.shift).toNat (by omega) (by omega)
    subst hd
    exact ⟨hnat, hne, hblank, fun _ => hlower⟩
  · simp only [List.forall_mem_cons] at hothers
    have hnat : d.toNat = (n + r.shift).toNat := by
      rw [hd]
      exact toNat_ofNat_of_valid (by unfold Nat.isValidChar; omega)
    refine ⟨hnat, ?_, ?_, ?_⟩
    · rintro rfl
      have hdotted : 'İ'.toNat = 0x130 := rfl
      omega
    · simp only [isBlank, Bool.or_eq_false_iff, Bool.and_eq_false_iff, decide_eq_false_iff_not,
        beq_eq_false_iff_ne]
      omega
    · omega

-- ---------------------------------------------------------------------------
-- Characters

theorem isLower_of_ascii (hc : c.toNat < 0x80) (h : c.toLower = c) : IsLower c := by
  intro before after
  rw [lowerAt, if_pos hc, h]

theorem isLower_of_not_has (hc : 0x80 ≤ c.toNat) (hdotted : c ≠ 'İ')
    (h : ∀ r ∈ lowerRuns, r.has c.toNat = false) : IsLower c := by
  have hsigma : c ≠ 'Σ' := by
    rintro rfl
    revert h
    decide +kernel
  intro before after
  rw [lowerAt, if_neg (Nat.not_lt.mpr hc), if_neg hsigma, if_neg hdotted, moveBy_of_not_has h]

theorem isLower_beyond (hd : 0x80 ≤ d.toNat) (hdotted : d ≠ 'İ') (hblank : isBlank d = false)
    (h : ∀ r ∈ lowerRuns, r.has d.toNat = false) : IsLower d ∧ IsLetterly d :=
  ⟨isLower_of_not_has hd hdotted h, hblank, fun hascii => absurd hascii (Nat.not_lt.mpr hd)⟩

theorem isLower_sigma : (IsLower 'ς' ∧ IsLetterly 'ς') ∧ IsLower 'σ' ∧ IsLetterly 'σ' :=
  ⟨isLower_beyond (by decide) (by decide) rfl (by decide +kernel),
    isLower_beyond (by decide) (by decide) rfl (by decide +kernel)⟩

theorem isLower_moved (hr : r ∈ lowerRuns) (hc : 0x80 ≤ c.toNat) (h : r.has c.toNat = true)
    (hd : d = Char.ofNat (c.toNat + r.shift).toNat) : IsLower d ∧ IsLetterly d := by
  obtain ⟨hnat, hdotted, hletter⟩ := of_moved hr hc h hd
  refine ⟨?_, hletter⟩
  by_cases hascii : d.toNat < 0x80
  · have hsmall : ∀ m < 0x80, (Char.ofNat m).isLower = true →
        (Char.ofNat m).toLower = Char.ofNat m := by decide
    have hlower := hsmall d.toNat hascii
    rw [Char.ofNat_toNat] at hlower
    exact isLower_of_ascii hascii (hlower (hletter.2 hascii))
  · refine isLower_of_not_has (Nat.le_of_not_lt hascii) hdotted ?_
    rw [hnat]
    exact not_has_of_has hr hc h

theorem lowerAt_of_ascii (hc : c.toNat < 0x80) :
    (∀ before after, lowerAt before c after = [c.toLower]) ∧
    IsLower c.toLower ∧ (c.toLower = c ∨ IsLetterly c.toLower) := by
  have hall : ∀ n < 0x80, (Char.ofNat n).toLower.toNat < 0x80 ∧
      (Char.ofNat n).toLower.toLower = (Char.ofNat n).toLower ∧
        ((Char.ofNat n).toLower = Char.ofNat n ∨ isBlank (Char.ofNat n).toLower = false ∧
          (Char.ofNat n).toLower.isLower = true) := by decide
  obtain ⟨hascii, hlower, hsame⟩ := hall c.toNat hc
  rw [Char.ofNat_toNat] at hascii hlower hsame
  refine ⟨fun _ _ => if_pos hc, isLower_of_ascii hascii hlower, ?_⟩
  exact hsame.imp_right fun h => ⟨h.1, fun _ => h.2⟩

/-- The lower case of a character is that character itself or a letter, or two of them. -/
theorem lowerAt_cases (before : List Char) (c : Char) (after : List Char) :
    (∃ d, lowerAt before c after = [d] ∧ IsLower d ∧ (d = c ∨ IsLetterly d)) ∨
      lowerAt before c after = ['i', '\u0307'] := by
  by_cases hc : c.toNat < 0x80
  · obtain ⟨hat, hlower, hsame⟩ := lowerAt_of_ascii hc
    exact .inl ⟨_, hat before after, hlower, hsame⟩
  replace hc := Nat.le_of_not_lt hc
  rw [lowerAt, if_neg (Nat.not_lt.mpr hc)]
  by_cases hsigma : c = 'Σ'
  · obtain ⟨⟨hfinal, hend⟩, hplain, hletter⟩ := isLower_sigma
    rw [if_pos hsigma]
    left
    split
    · exact ⟨_, rfl, hfinal, .inr hend⟩
    · exact ⟨_, rfl, hplain, .inr hletter⟩
  · rw [if_neg hsigma]
    by_cases hdotted : c = 'İ'
    · exact .inr (if_pos hdotted)
    · rw [if_neg hdotted]
      refine .inl ⟨_, rfl, ?_⟩
      rcases moveBy_cases lowerRuns c with hnone | ⟨r, hr, hhas, hmoved⟩
      · rw [moveBy_of_not_has hnone]
        exact ⟨isLower_of_not_has hc hdotted hnone, .inl rfl⟩
      · obtain ⟨hlower, hletter⟩ := isLower_moved hr hc hhas hmoved
        exact ⟨hlower, .inr hletter⟩

theorem isLower_dotted : ∀ d ∈ ['i', '\u0307'], IsLower d ∧ IsLetterly d :=
  List.forall_mem_cons.mpr ⟨⟨isLower_of_ascii (by decide) rfl, rfl, fun _ => rfl⟩,
    List.forall_mem_singleton.mpr
      (isLower_beyond (by decide) (by decide) rfl (by decide +kernel))⟩

theorem of_mem_lowerAt (h : d ∈ lowerAt before c after) :
    IsLower d ∧ (d = c ∨ IsLetterly d) := by
  rcases lowerAt_cases before c after with ⟨e, he, hlower, hsame⟩ | htwo
  · rw [he] at h
    obtain rfl := List.mem_singleton.mp h
    exact ⟨hlower, hsame⟩
  · rw [htwo] at h
    obtain ⟨hlower, hletter⟩ := isLower_dotted d h
    exact ⟨hlower, .inr hletter⟩

-- ---------------------------------------------------------------------------
-- Texts

theorem of_mem_lowerAfter (h : d ∈ lowerAfter before s) :
    IsLower d ∧ (d ∈ s ∨ IsLetterly d) := by
  induction s generalizing before with
  | nil => cases h
  | cons c rest ih =>
    rw [lowerAfter, List.mem_append] at h
    rcases h with h | h
    · obtain ⟨hlower, hsame⟩ := of_mem_lowerAt h
      exact ⟨hlower, hsame.imp_left fun he => List.mem_cons.mpr (.inl he)⟩
    · obtain ⟨hlower, hsame⟩ := ih h
      exact ⟨hlower, hsame.imp_left (List.mem_cons_of_mem c)⟩

theorem of_mem_lower (h : d ∈ lower s) : IsLower d ∧ (d ∈ s ∨ IsLetterly d) :=
  of_mem_lowerAfter h

theorem lowerAfter_of_isLower (h : ∀ c ∈ s, IsLower c) : lowerAfter before s = s := by
  induction s generalizing before with
  | nil => rfl
  | cons c rest ih =>
    obtain ⟨hc, hrest⟩ := List.forall_mem_cons.mp h
    rw [lowerAfter, hc, ih hrest]
    rfl

theorem lower_lower (s : List Char) : lower (lower s) = lower s :=
  lowerAfter_of_isLower fun _ h => (of_mem_lower h).1

theorem lowerString_lowerString (s : String) :
    lowerString (lowerString s) = lowerString s := by
  rw [lowerString, lowerString, String.toList_ofList, lower_lower]

end Mailgrid.Text
