import Mailgrid.Proofs.RawBlock.RoundTrip

/-!
# Placeholders under other settings

Whatever a placeholder starts with and ends in, it is found as a whole: its end
may begin with digits, but it comes behind the longest run of digits that leaves
room for it. What it is replaced by is the block of its number, except that no
number is read where the end is the empty text.
-/

namespace Mailgrid.RawBlock

variable {settings : Settings} {blocks : List String} {s rest digits ending : List Char}

-- ---------------------------------------------------------------------------
-- Finding a placeholder

theorem after?_of_short {word : List Char} (h : s.length < word.length) :
    Text.after? word s = none :=
  after?_eq_none fun hprefix => Nat.not_lt.mpr hprefix.length_le h

theorem longestIndex?_of_short (h : s.length < ending.length) (before : List Char) :
    longestIndex? ending before s = none := by
  induction s generalizing before with
  | nil => simp [longestIndex?, after?_of_short h]
  | cons c s ih =>
    have hlonger := ih (Nat.lt_of_succ_lt h)
    simp [longestIndex?, after?_of_short h, hlonger]

theorem longestIndex?_whole (hdigits : ∀ c ∈ digits, Text.isDigit c = true) (before : List Char)
    (hne : before ++ digits ≠ []) :
    longestIndex? ending before (digits ++ ending) = some (before ++ digits, []) := by
  induction digits generalizing before with
  | nil =>
    have hend : Text.after? ending ending = some [] := by
      simpa using Text.after?_append ending []
    rw [List.append_nil] at hne
    cases ending with
    | nil => simp [longestIndex?, hne, hend]
    | cons c ending =>
      have hlonger : longestIndex? (c :: ending) (before ++ [c]) ending = none :=
        longestIndex?_of_short (Nat.lt_succ_self _) _
      simp [longestIndex?, hne, hend, hlonger]
  | cons c digits ih =>
    obtain ⟨hc, hdigits⟩ := List.forall_mem_cons.mp hdigits
    have hrest := ih hdigits (before ++ [c]) (by simp)
    simp [longestIndex?, hc, hrest]

theorem placeholder?_whole (settings : Settings) (index : Nat) :
    placeholder? settings (settings.placeholder index).toList =
      some ((settings.placeholder index).toList, []) := by
  have hdigits (c : Char) (hc : c ∈ (toString index).toList) : Text.isDigit c = true :=
    Text.isDigit_of_isDigit (Text.isDigit_of_mem_toString hc)
  have hread : longestIndex? settings.rawEnd.toList []
      ((toString index).toList ++ settings.rawEnd.toList) = some ((toString index).toList, []) :=
    longestIndex?_whole hdigits [] (Text.toString_ne_nil index)
  simp only [placeholder?, placeholder_toList, List.append_assoc, Text.after?_append, hread,
    Option.map_some]

theorem restore_alone (hne : blocks ≠ []) (index : Nat) :
    restore settings blocks (settings.placeholder index) =
      String.ofList (blockOf settings blocks (settings.placeholder index).toList) := by
  have hfound : ∃ shorter, blockMatch? settings blocks (settings.placeholder index).toList =
      some ⟨blockOf settings blocks (settings.placeholder index).toList, [], shorter⟩ := by
    have hwhole := placeholder?_whole settings index
    refine ⟨length_of_placeholder? hwhole, ?_⟩
    unfold blockMatch?
    split
    · rename_i h
      cases hwhole.symm.trans h
      rfl
    · rename_i h
      cases hwhole.symm.trans h
  obtain ⟨shorter, hfound⟩ := hfound
  simp [restore, hne, Text.substitute_of_match hfound, Text.substitute_nil]

-- ---------------------------------------------------------------------------
-- Reading its number

theorem placeholderIndex?_of_empty (h : settings.rawEnd = "") (text : String) :
    settings.placeholderIndex? text = none := by
  simp [Settings.placeholderIndex?, h]

/-- With an empty end no placeholder has a number, and so each is put back as it is. -/
theorem blockOf_of_empty (h : settings.rawEnd = "") (written : List Char) :
    blockOf settings blocks written = written := by
  simp [blockOf, placeholderIndex?_of_empty h]

theorem blockOf_placeholder (hend : settings.rawEnd ≠ "") {index : Nat} {content : String}
    (few : index < 10 ^ Text.maxDigits) (hblock : blocks[index]? = some content) :
    settings.placeholderIndex? (settings.placeholder index) = some (index : Int) ∧
      blockOf settings blocks (settings.placeholder index).toList = content.toList := by
  obtain ⟨e, ending, hcons⟩ : ∃ e ending, settings.rawEnd.toList = e :: ending := by
    cases he : settings.rawEnd.toList with
    | nil => exact absurd (String.toList_eq_nil_iff.mp he) hend
    | cons e ending => exact ⟨e, ending, rfl⟩
  have hread := placeholderIndex?_placeholder hcons few
  exact ⟨hread, by simp [blockOf, hread, hblock]⟩

/-- Under settings with an end for placeholders each of them is read as its number, and replaced by
the block of that number. With the empty text for an end none is, for then nothing is left of the
text in which the number is looked for. No list has so many blocks that a number has more digits
than can be read. -/
theorem restore_placeholder (settings : Settings) {blocks : List String}
    (few : blocks.length ≤ 10 ^ Text.maxDigits) {index : Nat} (h : index < blocks.length) :
    (settings.rawEnd ≠ "" →
      settings.placeholderIndex? (settings.placeholder index) = some (index : Int) ∧
        restore settings blocks (settings.placeholder index) = blocks[index]) ∧
    (settings.rawEnd = "" →
      settings.placeholderIndex? (settings.placeholder index) = none ∧
        restore settings blocks (settings.placeholder index) = settings.placeholder index) := by
  have hne : blocks ≠ [] := List.ne_nil_of_length_pos (Nat.zero_lt_of_lt h)
  rw [restore_alone hne]
  constructor
  · intro hend
    obtain ⟨hread, hblock⟩ :=
      blockOf_placeholder hend (Nat.lt_of_lt_of_le h few) (List.getElem?_eq_getElem h)
    exact ⟨hread, by rw [hblock, String.ofList_toList]⟩
  · intro hend
    exact ⟨placeholderIndex?_of_empty hend _, by rw [blockOf_of_empty hend, String.ofList_toList]⟩

/-- Placeholders such as `-111٣`, whose end begins with a digit and ends in another one. -/
def digitSettings : Settings :=
  { rawStart := "-1", rawEnd := "1٣" }

theorem restore_placeholder_digits :
    digitSettings.placeholder 1 = "-111٣" ∧
      digitSettings.placeholderIndex? (digitSettings.placeholder 1) = some 1 ∧
      restore digitSettings ["a", "b"] (digitSettings.placeholder 1) = "b" := by
  have few : ["a", "b"].length ≤ 10 ^ Text.maxDigits :=
    Nat.le_trans (by decide : 2 ≤ 10 ^ 1) (Nat.pow_le_pow_right (by decide) (by decide))
  have hlast : 1 < ["a", "b"].length := by decide
  obtain ⟨hback, -⟩ := restore_placeholder digitSettings few hlast
  exact ⟨by decide, hback (by decide)⟩

theorem not_restore_placeholder : ¬ ∀ (settings : Settings) (blocks : List String) (index : Nat)
    (h : index < blocks.length),
    settings.placeholderIndex? (settings.placeholder index) = some (index : Int) ∧
      restore settings blocks (settings.placeholder index) = blocks[index] := by
  intro h
  obtain ⟨hread, -⟩ := h { rawEnd := "" } ["x"] 0 (by decide)
  rw [placeholderIndex?_of_empty rfl] at hread
  cases hread

end Mailgrid.RawBlock
