import Mailgrid.Proofs.Markup.Remainders
import Mailgrid.Proofs.Markup.Tokens
import Mailgrid.Proofs.Text.Brackets

/-!
# Tokens without brackets

Only a marked section is refused by the scan of a text without references, and
only a bracket opens one. `within_ofText`: a token is refused, is a marked section
or has a bracket in it only if the text has one.
-/

namespace Mailgrid.Markup

open Mailgrid.Text (BracketsIf subset_of_cutAtChar subset_of_cutAt)

variable {b : Prop} {s : List Char}

/-- Only if `b` does the token have a bracket or end the reading, and then it is markup that is
refused. -/
def Token.Within (b : Prop) : Token → Prop
  | .text content => BracketsIf b content.toList
  | .startTag tag => BracketsIf b tag.name.toList ∧
      ∀ a ∈ tag.attributes, BracketsIf b a.1.toList ∧ BracketsIf b a.2.toList
  | .endTag _ => True
  | .comment content => BracketsIf b content.toList
  | .docType content => BracketsIf b content.toList
  | .marked _ => b
  | .instruction content => BracketsIf b content.toList
  | .refused f => f = .refusedMarkup ∧ b

namespace Token

theorem within_textOf (h : BracketsIf b s) : (textOf s).Within b := by
  simpa [textOf, Within] using h

-- ---------------------------------------------------------------------------
-- Constructs

/-- What follows is of this text, and so are the tokens. -/
def Construct.Within (b : Prop) (s : List Char) : Construct → Prop
  | .read tokens _ rest => (∀ t ∈ tokens, t.Within b) ∧ rest ⊆ s
  | .unfinished => True
  | .refused f => f = .refusedMarkup ∧ b

theorem Construct.Within.mono {construct : Construct} {t : List Char}
    (h : construct.Within b s) (hsub : s ⊆ t) : construct.Within b t := by
  cases construct with
  | read => exact ⟨h.1, List.Subset.trans h.2 hsub⟩
  | unfinished => trivial
  | refused => exact h

theorem within_upToClose {token : List Char → List Token}
    (ht : ∀ {inner}, BracketsIf b inner → ∀ t ∈ token inner, t.Within b) (h : BracketsIf b s) :
    (upToClose token s).Within b s := by
  unfold upToClose
  split
  · rename_i hc
    obtain ⟨hinner, hrest⟩ := subset_of_cutAtChar hc
    exact ⟨ht (h.of_subset hinner), hrest⟩
  · trivial

theorem within_closedBy (h : BracketsIf b s) : ∀ t ∈ closedBy s, t.Within b := by
  unfold closedBy
  extract_lets start
  split
  · exact List.forall_mem_singleton.mpr trivial
  · split
    · exact List.forall_mem_singleton.mpr trivial
    · split
      · exact nofun
      · exact List.forall_mem_singleton.mpr (by simpa [Within] using h)

theorem within_attribute {a : OpenTag.Attribute} (hamp : '&' ∉ s) (h : BracketsIf b s)
    (ha : a.Of s) : Reference.holdsTooLong a.value.text = false ∧
      BracketsIf b a.pair.1.toList ∧ BracketsIf b a.pair.2.toList := by
  obtain ⟨-, hname, hvalue, -⟩ := ha
  have hnone : '&' ∉ a.value.text := fun hm => (hvalue _ hm).elim hamp (by decide)
  refine ⟨Reference.holdsTooLong_of_not_mem hnone, ?_, ?_⟩
  · rw [OpenTag.Attribute.pair, String.toList_ofList]
    exact (h.of_subset hname).lower
  · rw [OpenTag.Attribute.pair, String.toList_ofList, Reference.resolve_of_not_mem hnone]
    exact fun hm => (hvalue _ hm).elim h fun he => absurd he (by decide)

theorem within_startTagAt (hamp : '&' ∉ s) (h : BracketsIf b s) :
    (startTagAt s).Within b s := by
  have hread := OpenTag.of_read s
  unfold startTagAt
  split
  · rename_i tag rest he
    rw [he] at hread
    obtain ⟨hrest, name, found, hname, hfound, htag, hattributes⟩ := hread
    refine ⟨List.forall_mem_singleton.mpr ⟨?_, ?_⟩, hrest⟩
    · rw [htag, String.toList_ofList]
      exact (h.of_subset hname).lower
    · rw [hattributes, List.forall_mem_map]
      exact fun a ha => (within_attribute hamp h (hfound a ha)).2
  · trivial
  · rename_i he
    rw [he] at hread
    obtain ⟨a, ha, hlong⟩ := hread
    rw [(within_attribute hamp h ha).1] at hlong
    cases hlong
  · rename_i rest he
    rw [he] at hread
    refine ⟨List.forall_mem_singleton.mpr (within_textOf ?_), hread⟩
    exact Text.bracketsIf_cons.mpr
      ⟨fun he => absurd he (by decide), h.of_subset (List.take_sublist _ _).subset⟩

theorem within_commentAt (h : BracketsIf b s) : (commentAt s).Within b s := by
  unfold commentAt
  split
  · rename_i hc
    obtain ⟨hinner, after, hafter, he⟩ := subset_of_cutAt hc
    exact ⟨List.forall_mem_singleton.mpr (by simpa [Within] using h.of_subset hinner),
      List.Subset.trans (subset_of_commentEnd? he) hafter⟩
  · trivial

theorem within_sectionAt (hb : b) (s : List Char) : (sectionAt s).Within b s := by
  unfold sectionAt
  split
  · trivial
  · split
    · exact ⟨rfl, hb⟩
    · split
      · trivial
      · split
        · exact ⟨rfl, hb⟩
        · rename_i hs
          split
          · rename_i hc
            obtain ⟨-, after, hafter, he⟩ := subset_of_cutAt hc
            exact ⟨List.forall_mem_singleton.mpr hb,
              List.Subset.trans (subset_of_sectionEnd? hs he) hafter⟩
          · trivial

theorem within_declarationAt (h : BracketsIf b s) : (declarationAt s).Within b s := by
  unfold declarationAt
  split
  · rename_i rest
    simp only [Text.bracketsIf_cons] at h
    exact (within_commentAt h.2.2).mono (by simp)
  · rename_i rest
    exact (within_sectionAt (h List.mem_cons_self) rest).mono (List.subset_cons_self _ _)
  · refine within_upToClose (fun hi => List.forall_mem_singleton.mpr ?_) h
    split <;> simpa [Within] using hi

theorem within_constructAt (hamp : '&' ∉ s) (h : BracketsIf b s) :
    (constructAt s).Within b s := by
  unfold constructAt
  split
  · exact (within_upToClose within_closedBy (Text.bracketsIf_cons.mp h).2).mono
      (List.subset_cons_self _ _)
  · exact (within_declarationAt (Text.bracketsIf_cons.mp h).2).mono (List.subset_cons_self _ _)
  · refine (within_upToClose (fun hi => ?_) (Text.bracketsIf_cons.mp h).2).mono
      (List.subset_cons_self _ _)
    exact List.forall_mem_singleton.mpr (by simpa [Within] using hi)
  · trivial
  · split
    · exact within_startTagAt hamp h
    · exact ⟨List.forall_mem_singleton.mpr (within_textOf (.of_not_mem (by decide))),
        List.Subset.refl _⟩

-- ---------------------------------------------------------------------------
-- The scan

theorem forall_textBefore {P : Token → Prop} (h : P (textOf s)) : ∀ t ∈ textBefore s, P t := by
  unfold textBefore
  split
  · exact nofun
  · exact List.forall_mem_singleton.mpr h

theorem subset_of_constructAt {tokens : List Token} {literal : Option (List Char)}
    {rest : List Char} (hamp : '&' ∉ s) (h : constructAt s = .read tokens literal rest) :
    rest ⊆ s := by
  have hread := within_constructAt hamp (.of trivial)
  rw [h] at hread
  exact hread.2

/-- What is so of the texts, of the end tags and of what the constructs are read as is so of all
tokens of a text that has no ampersand, and so no reference. -/
theorem forall_scan {P : Token → Prop} {text : List Char} (hamp : '&' ∉ text)
    (htext : ∀ t ⊆ text, P (textOf t)) (hend : ∀ name, P (.endTag name))
    (hread : ∀ t ⊆ text, ∀ {tokens literal rest}, constructAt t = .read tokens literal rest →
      ∀ k ∈ tokens, P k)
    (hrefused : ∀ t ⊆ text, ∀ {f}, constructAt t = .refused f → P (.refused f))
    (closing : Bool) (literal : Option (List Char)) (hs : s ⊆ text) :
    ∀ t ∈ scan closing literal s, P t := by
  fun_induction scan closing literal s with
  | case1 => exact nofun
  | case2 closing s name before spelled rest hcut _ ih =>
    obtain ⟨hbefore, after, hafter, he⟩ := subset_of_cutAt hcut
    have hrest := List.Subset.trans (List.Subset.trans (subset_of_literalEnd? he) hafter) hs
    have hshown := htext before (List.Subset.trans hbefore hs)
    refine List.forall_mem_append.mpr ⟨forall_textBefore hshown, ?_⟩
    exact List.forall_mem_cons.mpr ⟨hend _, ih hrest⟩
  | case3 closing s name before spelled rest hcut _ ih =>
    obtain ⟨-, after, hafter, he⟩ := subset_of_cutAt hcut
    have hrest := List.Subset.trans (List.Subset.trans (subset_of_literalEnd? he) hafter) hs
    have hshown := (List.take_sublist (s.length - rest.length) s).subset
    exact List.forall_mem_cons.mpr ⟨htext _ (List.Subset.trans hshown hs), ih hrest⟩
  | case4 => exact nofun
  | case5 closing s tokens literal rest hc ih =>
    have hs := List.Subset.trans (List.subset_cons_self '<' s) hs
    have hrest := subset_of_constructAt (fun hm => hamp (hs hm)) hc
    exact List.forall_mem_append.mpr ⟨hread _ hs hc, ih (List.Subset.trans hrest hs)⟩
  | case6 closing s f hc =>
    have hs := List.Subset.trans (List.subset_cons_self '<' s) hs
    exact List.forall_mem_singleton.mpr (hrefused _ hs hc)
  | case7 s hc ih =>
    obtain ⟨hshown, hrest⟩ := asText_subset s
    have hrest := List.Subset.trans (List.subset_cons_of_subset '<' hrest) hs
    exact List.forall_mem_cons.mpr ⟨htext _ (List.Subset.trans hshown hs), ih hrest⟩
  | case8 closing s hc _ ih => exact ih hs
  | case9 => exact absurd (hs List.mem_cons_self) hamp
  | case10 => exact absurd (hs List.mem_cons_self) hamp
  | case11 => exact absurd (hs List.mem_cons_self) hamp
  | case12 closing c s _ _ ih =>
    have hshown : c :: s.takeWhile isPlain ⊆ c :: s :=
      List.cons_subset_cons c (List.takeWhile_sublist _).subset
    have hrest := List.subset_cons_of_subset c (List.dropWhile_sublist (l := s) isPlain).subset
    refine List.forall_mem_cons.mpr ⟨htext _ (List.Subset.trans hshown hs), ih ?_⟩
    exact List.Subset.trans hrest hs

theorem within_ofText (hamp : '&' ∉ s) (h : BracketsIf b s) : ∀ t ∈ ofText s, t.Within b := by
  have hconstruct (t : List Char) (ht : t ⊆ s) : (constructAt t).Within b t :=
    within_constructAt (fun hm => hamp (ht hm)) (h.of_subset ht)
  refine forall_scan hamp (fun t ht => within_textOf (h.of_subset ht)) (fun _ => trivial)
    (fun t ht _ _ _ hread => ?_) (fun t ht _ hrefused => ?_) false none (List.Subset.refl s)
  · have hwithin := hconstruct t ht
    rw [hread] at hwithin
    exact hwithin.1
  · have hwithin := hconstruct t ht
    rwa [hrefused] at hwithin

end Token

end Mailgrid.Markup
