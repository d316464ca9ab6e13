import Mailgrid.Proofs.Markup.Tokens

/-!
# What readers leave

A reader takes what it reads and leaves what follows, and both come from the text
it is given: no character is in one of them that is not in the text. The only
exception is an unquoted value, which may start with an equals sign of its own.
-/

namespace Mailgrid.Text

variable {s before after rest spelled word name : List Char}

theorem skipBlanks_subset (s : List Char) : skipBlanks s ⊆ s :=
  (List.dropWhile_sublist isBlank).subset

theorem subset_of_cutAtChar {c : Char} (h : cutAtChar c s = some (before, after)) :
    before ⊆ s ∧ after ⊆ s := by
  obtain rfl := append_of_cutAtChar h
  exact ⟨by simp, fun d hd => by simp [hd]⟩

theorem subset_of_cutAt {α : Type} {look : List Char → Option α} {a : α}
    (h : cutAt look s = some (before, a)) :
    before ⊆ s ∧ ∃ after, after ⊆ s ∧ look after = some a := by
  obtain ⟨after, rfl, ha⟩ := look_of_cutAt h
  exact ⟨by simp, after, by simp, ha⟩

theorem subset_of_spelling? (h : spelling? word s = some (spelled, rest)) :
    spelled ⊆ s ∧ rest ⊆ s := by
  rw [(length_of_spelling? h).2]
  exact ⟨by simp, by simp⟩

end Mailgrid.Text

namespace Mailgrid.Markup

open Mailgrid.Text (skipBlanks skipBlanks_subset subset_of_cutAtChar subset_of_cutAt)

variable {s rest : List Char}

-- ---------------------------------------------------------------------------
-- Start tags

namespace OpenTag

theorem skipGaps_subset (s : List Char) : skipGaps s ⊆ s := by
  induction s with
  | nil => exact List.Subset.refl _
  | cons c rest ih =>
    rw [skipGaps]
    split
    · exact List.subset_cons_of_subset c ih
    · exact List.Subset.refl _

/-- A value of this text, with what follows it. -/
def Value.Of (v : Value) (s : List Char) : Prop :=
  (∀ c ∈ v.text, c ∈ s ∨ c = '=') ∧ v.rest ⊆ s

theorem Value.Of.mono {v : Value} {t : List Char} (h : v.Of s) (hsub : s ⊆ t) : v.Of t :=
  ⟨fun c hc => (h.1 c hc).imp_left (hsub ·), List.Subset.trans h.2 hsub⟩

theorem of_unquoted (s : List Char) : (unquoted s).Of s :=
  ⟨fun _ hc => .inl ((List.takeWhile_sublist _).subset hc), (List.dropWhile_sublist _).subset⟩

theorem of_valueAt? {signs : Nat} {padded : Bool} {v : Value}
    (h : valueAt? signs padded s = some v) : v.Of s := by
  unfold valueAt? at h
  split at h
  · cases h
    exact of_unquoted []
  · split at h
    · split at h
      · rename_i hc
        cases h
        obtain ⟨htext, hrest⟩ := subset_of_cutAtChar hc
        exact ⟨fun c hc => .inl (List.mem_cons_of_mem _ (htext hc)),
          List.subset_cons_of_subset _ hrest⟩
      · split at h
        · cases h
          exact ⟨List.forall_mem_nil _, List.Subset.refl _⟩
        · split at h
          · cases h
            obtain ⟨htext, hrest⟩ := of_unquoted (_ :: _)
            exact ⟨List.forall_mem_cons.mpr ⟨.inr rfl, htext⟩, hrest⟩
          · cases h
    · cases h
      exact of_unquoted _

theorem of_value? {v : Value} (h : value? s = some v) : v.Of s := by
  simp only [value?] at h
  split at h
  · cases h
  · refine (of_valueAt? h).mono ?_
    exact List.Subset.trans (skipBlanks_subset _)
      (List.Subset.trans (List.dropWhile_sublist _).subset (skipBlanks_subset s))

/-- An attribute of this text, with what follows it. -/
structure Attribute.Of (a : Attribute) (s : List Char) : Prop where
  isName : isAttributeName (String.ofList a.name) = true
  name : a.name ⊆ s
  value : a.value.Of s

theorem Attribute.Of.mono {a : Attribute} {t : List Char} (h : a.Of s) (hsub : s ⊆ t) : a.Of t :=
  ⟨h.isName, List.Subset.trans h.name hsub, h.value.mono hsub⟩

theorem of_attribute? {a : Attribute} (h : attribute? s = some a) : a.Of s := by
  cases s with
  | nil => cases h
  | cons c s =>
    have hname : c :: s.takeWhile isAttributeChar ⊆ c :: s :=
      List.cons_subset_cons c (List.takeWhile_sublist _).subset
    have hafter : s.dropWhile isAttributeChar ⊆ c :: s :=
      List.subset_cons_of_subset c (List.dropWhile_sublist _).subset
    simp only [attribute?] at h
    split at h
    · cases h
    · rename_i hc
      have hisName : isAttributeName (String.ofList (c :: s.takeWhile isAttributeChar)) = true := by
        have hall : ∀ d ∈ s.takeWhile isAttributeChar, isAttributeChar d = true :=
          fun d => List.mem_takeWhile_imp
        simp only [isAttributeName, String.toList_ofList, Bool.and_eq_true, Bool.not_eq_true',
          List.all_eq_true]
        exact ⟨by simpa using hc, hall⟩
      split at h
      · rename_i hv
        cases h
        exact ⟨hisName, hname, (of_value? hv).mono hafter⟩
      · cases h
        exact ⟨hisName, hname, List.forall_mem_nil _, hafter⟩

theorem of_attributesOf (touching : Bool) (s : List Char) :
    (∀ a ∈ (attributesOf touching s).1, a.Of s) ∧ (attributesOf touching s).2 ⊆ s := by
  fun_induction attributesOf touching s with
  | case1 s a h rest more after he ih =>
    rw [he] at ih
    have ha := of_attribute? h
    have hrest : rest ⊆ s := List.Subset.trans (skipGaps_subset _) ha.value.2
    exact ⟨List.forall_mem_cons.mpr ⟨ha, fun a hm => (ih.1 a hm).mono hrest⟩,
      List.Subset.trans ih.2 hrest⟩
  | case2 s h => exact ⟨List.forall_mem_nil _, List.Subset.refl s⟩
  | case3 touching s h => exact ⟨List.forall_mem_nil _, List.Subset.refl s⟩

/-- A reading of this text. -/
def Reading.Of (s : List Char) : Reading → Prop
  | .complete tag rest => rest ⊆ s ∧ ∃ (name : List Char) (found : List Attribute), name ⊆ s ∧
      (∀ a ∈ found, a.Of s) ∧ tag.name = String.ofList (Text.lower name) ∧
      tag.attributes = found.map Attribute.pair
  | .unfinished => True
  | .broken rest => rest ⊆ s
  | .refused => ∃ a : Attribute, a.Of s ∧ Reference.holdsTooLong a.value.text = true

theorem of_read (s : List Char) : (read s).Of s := by
  have hname : s.takeWhile isNameChar ⊆ s := (List.takeWhile_sublist _).subset
  have hstart : skipGaps (s.dropWhile isNameChar) ⊆ s :=
    List.Subset.trans (skipGaps_subset _) (List.dropWhile_sublist _).subset
  unfold read
  extract_lets name after start touching
  obtain ⟨hfound, hending⟩ := of_attributesOf touching start
  split
  rename_i found ending he
  rw [he] at hfound hending
  have hof (a : Attribute) (ha : a ∈ found) : a.Of s := (hfound a ha).mono hstart
  have hleft : ending ⊆ s := List.Subset.trans hending hstart
  extract_lets isRefused tag
  have htag (closed : Bool) {rest : List Char} (hrest : rest ⊆ s) :
      (if isRefused then Reading.refused else .complete (tag closed) rest).Of s := by
    split
    · rename_i hr
      obtain ⟨a, ha, hlong⟩ := List.any_eq_true.mp hr
      exact ⟨a, hof a ha, hlong⟩
    · exact ⟨hrest, name, found, hname, hof, rfl, rfl⟩
  split
  · trivial
  · exact htag false fun c hc => hleft (List.mem_cons_of_mem _ hc)
  · exact htag true fun c hc => hleft (List.mem_cons_of_mem _ (List.mem_cons_of_mem _ hc))
  · split
    · trivial
    · split
      · rename_i hr
        obtain ⟨a, ha, hlong⟩ := List.any_eq_true.mp hr
        exact ⟨a, hof a ha, hlong⟩
      · exact hleft

end OpenTag

-- ---------------------------------------------------------------------------
-- Other constructs

namespace Token

theorem subset_of_commentEnd? (h : commentEnd? s = some rest) : rest ⊆ s := by
  unfold commentEnd? at h
  split at h
  · rename_i behind
    split at h
    · rename_i hs
      cases h
      have hrest : rest ⊆ skipBlanks behind := by
        rw [hs]
        exact List.subset_cons_self _ _
      exact List.subset_cons_of_subset _
        (List.subset_cons_of_subset _ (List.Subset.trans hrest (skipBlanks_subset behind)))
    · cases h
  · cases h

theorem subset_of_conditionalEnd? (h : conditionalEnd? s = some rest) : rest ⊆ s := by
  unfold conditionalEnd? at h
  split at h
  · rename_i behind
    split at h
    · rename_i hs
      cases h
      have hrest : rest ⊆ skipBlanks behind := by
        rw [hs]
        exact List.subset_cons_self _ _
      exact List.subset_cons_of_subset _ (List.Subset.trans hrest (skipBlanks_subset behind))
    · cases h
  · cases h

theorem subset_of_keywordEnd? (h : keywordEnd? s = some rest) : rest ⊆ s := by
  unfold keywordEnd? at h
  split at h
  · exact List.subset_cons_of_subset _
      (List.Subset.trans (subset_of_conditionalEnd? h) (skipBlanks_subset _))
  · cases h

theorem subset_of_sectionEnd? {name : String} {ending : List Char → Option (List Char)}
    (h : sectionEnd? name = some ending) (he : ending s = some rest) : rest ⊆ s := by
  unfold sectionEnd? at h
  split at h
  · cases h
    exact subset_of_keywordEnd? he
  · split at h
    · cases h
      exact subset_of_conditionalEnd? he
    · cases h

theorem subset_of_literalEnd? {name spelled : List Char}
    (h : literalEnd? name s = some (spelled, rest)) : rest ⊆ s := by
  unfold literalEnd? at h
  split at h
  · rename_i behind
    split at h
    · rename_i after hs
      split at h
      · rename_i hr
        cases h
        have hrest : rest ⊆ skipBlanks after := by
          rw [hr]
          exact List.subset_cons_self _ _
        have hbehind : after ⊆ behind :=
          List.Subset.trans (Text.subset_of_spelling? hs).2 (skipBlanks_subset behind)
        have hafter : rest ⊆ after := List.Subset.trans hrest (skipBlanks_subset after)
        exact List.subset_cons_of_subset _
          (List.subset_cons_of_subset _ (List.Subset.trans hafter hbehind))
      · cases h
    · cases h
  · cases h

theorem asText_subset (s : List Char) : (asText s).1 ⊆ '<' :: s ∧ (asText s).2 ⊆ s := by
  unfold asText
  split
  · rename_i hc
    rw [Text.append_of_cutAtChar hc]
    refine ⟨?_, fun c hc => by simp [hc]⟩
    intro c hc
    simp only [List.cons_append, List.mem_cons, List.mem_append, List.not_mem_nil, or_false] at hc
    rcases hc with hc | hc | hc <;> simp [hc]
  · split
    · rename_i hc
      exact ⟨List.cons_subset_cons _ (subset_of_cutAtChar hc).1, (List.drop_sublist _ _).subset⟩
    · exact ⟨by simp, List.Subset.refl s⟩

end Token

end Mailgrid.Markup
