import Mailgrid.Proofs.RawBlock.Cut
import Mailgrid.Proofs.Text.Integer
import Mailgrid.Proofs.Text.Search

/-!
# Shielded blocks come back

A text that is shielded and restored is the text without its markers. A
placeholder is found where it was put, whatever stands around it, since none of
its first part's ends is a start of it too; and it is read as the number it was
written with. What replaces it is not looked at again.
-/

namespace Mailgrid.RawBlock

variable {settings : Settings} {blocks : List String} {s rest digits ending : List Char}

-- ---------------------------------------------------------------------------
-- Placeholders

theorem after?_eq_none {word : List Char} (h : ¬ word <+: s) : Text.after? word s = none := by
  cases ha : Text.after? word s with
  | none => rfl
  | some rest => exact absurd ⟨rest, (Text.append_of_after? ha).symm⟩ h

theorem placeholder?_eq_none (h : ¬ settings.rawStart.toList <+: s) :
    placeholder? settings s = none := by
  rw [placeholder?, after?_eq_none h]

theorem longestIndex?_append {e : Char} (he : Text.isDigit e = false)
    (hdigits : ∀ c ∈ digits, Text.isDigit c = true) (before : List Char)
    (hne : before ++ digits ≠ []) :
    longestIndex? (e :: ending) before (digits ++ (e :: ending ++ rest)) =
      some (before ++ digits, rest) := by
  induction digits generalizing before with
  | nil =>
    have hbefore : before.isEmpty = false := by
      cases before with
      | nil => exact absurd rfl hne
      | cons c before => rfl
    have hafter := Text.after?_append (e :: ending) rest
    simp only [List.nil_append, List.cons_append, longestIndex?, he, hbefore, Bool.false_eq_true,
      if_false, List.append_nil] at hafter ⊢
    rw [hafter]
    rfl
  | cons c digits ih =>
    obtain ⟨hc, hdigits⟩ := List.forall_mem_cons.mp hdigits
    have hrest := ih hdigits (before ++ [c]) (by simp)
    rw [List.append_assoc, List.singleton_append] at hrest
    rw [List.cons_append, longestIndex?, if_pos hc, hrest]

theorem placeholder_toList (settings : Settings) (index : Nat) :
    (settings.placeholder index).toList =
      settings.rawStart.toList ++ (toString index).toList ++ settings.rawEnd.toList := by
  rw [Settings.placeholder, String.toList_append, String.toList_append]

section
variable {e : Char} (hend : settings.rawEnd.toList = e :: ending) (he : Text.isDigit e = false)
include hend

theorem placeholderIndex?_placeholder {index : Nat} (h : index < 10 ^ Text.maxDigits) :
    settings.placeholderIndex? (settings.placeholder index) = some (index : Int) := by
  have hwritten := placeholder_toList settings index
  have hprefix : settings.rawStart.toList.isPrefixOf (settings.placeholder index).toList = true :=
    List.isPrefixOf_iff_prefix.mpr ⟨_, by rw [hwritten, List.append_assoc]⟩
  have hsuffix : settings.rawEnd.toList.isSuffixOf (settings.placeholder index).toList = true :=
    List.isSuffixOf_iff_suffix.mpr ⟨_, hwritten.symm⟩
  have hempty : settings.rawEnd.isEmpty = false := by
    rw [← Bool.not_eq_true, String.isEmpty_iff, ← String.toList_inj, hend]
    exact List.cons_ne_nil e ending
  have hdigits : ((settings.placeholder index).toList.take
      ((settings.placeholder index).toList.length - settings.rawEnd.length)).drop
        settings.rawStart.length = (toString index).toList := by
    rw [hwritten, List.length_append, String.length_toList, Nat.add_sub_cancel, List.take_left,
      ← String.length_toList, List.drop_left]
  simp only [Settings.placeholderIndex?, hprefix, hsuffix, hempty, hdigits, Bool.and_self, if_true,
    Bool.false_eq_true, if_false]
  exact Text.integer?_toString h

include he

theorem placeholder?_append (index : Nat) (rest : List Char) :
    placeholder? settings ((settings.placeholder index).toList ++ rest) =
      some ((settings.placeholder index).toList, rest) := by
  have hdigits (c : Char) (hc : c ∈ (toString index).toList) : Text.isDigit c = true :=
    Text.isDigit_of_isDigit (Text.isDigit_of_mem_toString hc)
  have hread : longestIndex? settings.rawEnd.toList []
      ((toString index).toList ++ (settings.rawEnd.toList ++ rest)) =
        some ((toString index).toList, rest) := by
    rw [hend]
    exact longestIndex?_append he hdigits [] (Text.toString_ne_nil index)
  simp only [placeholder?, placeholder_toList, List.append_assoc, Text.after?_append, hread,
    Option.map_some]

theorem blockMatch?_placeholder {index : Nat} {content : String}
    (h : index < 10 ^ Text.maxDigits) (hblock : blocks[index]? = some content) (rest : List Char) :
    ∃ shorter, blockMatch? settings blocks ((settings.placeholder index).toList ++ rest) =
      some ⟨content.toList, rest, shorter⟩ := by
  have hread := placeholder?_append hend he index rest
  have hof : blockOf settings blocks (settings.placeholder index).toList = content.toList := by
    rw [blockOf, String.ofList_toList, placeholderIndex?_placeholder hend h]
    simp [hblock]
  refine ⟨length_of_placeholder? hread, ?_⟩
  unfold blockMatch?
  split
  · rename_i hfound
    rw [hread] at hfound
    cases hfound
    simp only [hof]
  · rename_i hfound
    rw [hread] at hfound
    cases hfound

end

theorem blockMatch?_eq_none (h : ¬ settings.rawStart.toList <+: s) :
    blockMatch? settings blocks s = none := by
  unfold blockMatch?
  split
  · rename_i hfound
    rw [placeholder?_eq_none h] at hfound
    cases hfound
  · rfl

-- ---------------------------------------------------------------------------
-- Gaps

theorem rawStart_unbordered {p q : List Char} (h : Settings.standard.rawStart.toList = p ++ q)
    (hp : p ≠ []) (hq : q ≠ []) : ¬ q <+: Settings.standard.rawStart.toList := by
  have hends : ∀ n < Settings.standard.rawStart.toList.length, 0 < n →
      ¬ Settings.standard.rawStart.toList.drop n <+: Settings.standard.rawStart.toList := by
    decide
  have hdrop : Settings.standard.rawStart.toList.drop p.length = q := by
    rw [h, List.drop_left]
  have hlength : p.length < Settings.standard.rawStart.toList.length := by
    have := List.length_pos_iff.mpr hq
    rw [h, List.length_append]
    omega
  have hend := hends p.length hlength (List.length_pos_iff.mpr hp)
  rwa [hdrop] at hend

/-- A placeholder starts in no gap, even where the gap and what is behind it make one together. -/
theorem not_starts_in_gap {gap : List Char} (hgap : gap ≠ [])
    (h : ¬ Settings.standard.rawStart.toList <:+: gap)
    (hrest : rest = [] ∨ Settings.standard.rawStart.toList <+: rest) :
    ¬ Settings.standard.rawStart.toList <+: gap ++ rest := by
  intro hstart
  rcases List.prefix_or_prefix_of_prefix hstart (List.prefix_append gap rest) with hin | ⟨q, hq⟩
  · exact h hin.isInfix
  · rw [← hq, List.prefix_append_right_inj] at hstart
    have hne : q ≠ [] := by
      rintro rfl
      rw [List.append_nil] at hq
      exact h (hq ▸ List.infix_rfl)
    rcases hrest with rfl | hrest
    · exact hne (List.prefix_nil.mp hstart)
    · have hlength : q.length ≤ Settings.standard.rawStart.toList.length := by
        rw [← hq, List.length_append]
        exact Nat.le_add_left _ _
      exact rawStart_unbordered hq.symm hgap hne
        (List.prefix_of_prefix_length_le hstart hrest hlength)

theorem substitute_gap {gap : List Char} (h : ¬ Settings.standard.rawStart.toList <:+: gap)
    (hrest : rest = [] ∨ Settings.standard.rawStart.toList <+: rest) :
    Text.substitute (blockMatch? .standard blocks) (gap ++ rest) =
      gap ++ Text.substitute (blockMatch? .standard blocks) rest := by
  induction gap with
  | nil => rfl
  | cons c gap ih =>
    have hnone : blockMatch? .standard blocks (c :: (gap ++ rest)) = none :=
      blockMatch?_eq_none (not_starts_in_gap (List.cons_ne_nil c gap) h hrest)
    rw [List.cons_append, Text.substitute_of_none hnone,
      ih fun hin => h (hin.trans (List.suffix_cons c gap).isInfix), List.cons_append]

-- ---------------------------------------------------------------------------
-- Restoring

theorem numbered_starts (settings : Settings) (index : Nat)
    (parts : List (List Char × List Char)) :
    numbered settings index parts = [] ∨
      settings.rawStart.toList <+: numbered settings index parts := by
  cases parts with
  | nil => exact .inl rfl
  | cons part parts =>
    refine .inr ?_
    rw [numbered, placeholder_toList, List.append_assoc, List.append_assoc]
    exact List.prefix_append _ _

/-- Behind each placeholder that is replaced its gap and the next one follow, which the induction
is on; `kept` are all blocks, of which those from `index` on are still to come. -/
theorem substitute_numbered {kept : List String} {index : Nat}
    {parts : List (List Char × List Char)}
    (hkept : kept.drop index = (parts.map Prod.fst).map String.ofList)
    (hindex : index + parts.length ≤ 10 ^ Text.maxDigits)
    (hgaps : ∀ gap ∈ parts.map Prod.snd, ¬ Settings.standard.rawStart.toList <:+: gap) :
    Text.substitute (blockMatch? .standard kept) (numbered .standard index parts) =
      parts.flatMap fun (content, gap) => content ++ gap := by
  induction parts generalizing index with
  | nil => exact Text.substitute_nil _
  | cons part parts ih =>
    obtain ⟨content, gap⟩ := part
    obtain ⟨hgap, hgaps⟩ := List.forall_mem_cons.mp hgaps
    have hblock : kept[index]? = some (String.ofList content) := by
      have h0 := congrArg (·[0]?) hkept
      simpa [List.getElem?_drop] using h0
    have hnext : kept.drop (index + 1) = (parts.map Prod.fst).map String.ofList := by
      rw [← List.tail_drop, hkept]
      rfl
    simp only [List.length_cons] at hindex
    have hend : Settings.standard.rawEnd.toList = '#' :: "##".toList := rfl
    obtain ⟨shorter, hmatch⟩ := blockMatch?_placeholder hend (by decide) (by omega) hblock
      (gap ++ numbered .standard (index + 1) parts)
    rw [numbered, Text.substitute_of_match hmatch,
      substitute_gap hgap (numbered_starts .standard (index + 1) parts),
      ih hnext (by omega) hgaps, String.toList_ofList, List.flatMap_cons, List.append_assoc]

theorem restore_numbered {cut : Cut} (numbers : cut.blocks.length ≤ 10 ^ Text.maxDigits)
    (gaps : ∀ gap ∈ cut.gaps, ¬ Settings.standard.rawStart.toList <:+: gap) :
    restore .standard (cut.contents.map String.ofList)
        (String.ofList (cut.first ++ numbered .standard 0 cut.blocks)) =
      String.ofList cut.joined := by
  obtain ⟨hfirst, hgaps⟩ := List.forall_mem_cons.mp gaps
  have hback : Text.substitute (blockMatch? .standard (cut.contents.map String.ofList))
      (cut.first ++ numbered .standard 0 cut.blocks) = cut.joined := by
    rw [substitute_gap hfirst (numbered_starts .standard 0 cut.blocks),
      substitute_numbered rfl (by omega) hgaps]
    rfl
  rw [restore]
  split
  · rename_i hnone
    have hblocks : cut.blocks = [] := by simpa [Cut.contents] using hnone
    simp [Cut.joined, hblocks, numbered]
  · rw [String.toList_ofList, hback]

/-- A text comes back without its markers, and so with every content as it was. The numbers of its
blocks have more digits than a number may have only where the text is longer than a text can be. -/
theorem restore_shield (text : String) :
    ∃ cut, (∀ other, IsCut text.toList other ↔ other = cut) ∧
      (cut.blocks.length ≤ 10 ^ Text.maxDigits →
        (∀ gap ∈ cut.gaps, ¬ "###RAW".toList <:+: gap) →
        restore .standard (shield .standard text).blocks (shield .standard text).text =
          String.ofList cut.joined) := by
  refine ⟨cutOf text.toList, fun _ => isCut_iff, fun numbers gaps => ?_⟩
  rw [shield_of_isCut .standard (isCut_cutOf _)]
  exact restore_numbered numbers gaps

theorem restore_shield_among_pieces :
    let shielded := shield .standard "##<raw>###RAW1###</raw>#< RAW ><raw></Raw >RAW0###"
    restore .standard shielded.blocks shielded.text = "#####RAW1####<raw>RAW0###" := by
  obtain ⟨cut, hcut, hback⟩ :=
    restore_shield "##<raw>###RAW1###</raw>#< RAW ><raw></Raw >RAW0###"
  have hparts : cutOf "##<raw>###RAW1###</raw>#< RAW ><raw></Raw >RAW0###".toList =
      ⟨"##".toList, [("###RAW1###".toList, "#".toList), ("<raw>".toList, "RAW0###".toList)]⟩ := by
    cbv
  obtain rfl := (hcut _).mp (isCut_iff.mpr hparts.symm)
  refine hback ?_ (by decide +kernel)
  exact Nat.le_trans (by decide : 2 ≤ 10 ^ 1) (Nat.pow_le_pow_right (by decide) (by decide))

end Mailgrid.RawBlock
