import Mailgrid.Proofs.Markup.Plain

/-!
# Forests with other tags

`Retagged`: two forests that are the same but for a change of all tags and for
the kinds of their texts. What treats a tag and the changed one alike does the
same in both.
-/

namespace Mailgrid.Markup

/-- The second forest is the first with all tags changed. -/
inductive Retagged (change : Tag → Tag) : Forest α → Forest α → Prop
  | nil : Retagged change .nil .nil
  | leaf {m : α} {kind other : LeafKind} {content : String} {f g : Forest α}
      (kinds : other.bare = kind.bare) (rest : Retagged change f g) :
      Retagged change (.leaf m kind content f) (.leaf m other content g)
  | element {m : α} {t : Tag} {inner within f g : Forest α}
      (inside : Retagged change inner within) (rest : Retagged change f g) :
      Retagged change (.element m t inner f) (.element m (change t) within g)

namespace Retagged

variable {change : Tag → Tag} {f g : Forest α}

theorem kind_cases {kind other : LeafKind} (h : other.bare = kind.bare) :
    (∃ k k', kind = .text k ∧ other = .text k') ∨ (other = kind ∧ ∀ k, kind ≠ .text k) := by
  cases kind with
  | text k =>
    cases other with
    | text k' => exact .inl ⟨k, k', rfl, rfl⟩
    | _ => cases h
  | _ => cases other <;> first | exact .inr ⟨rfl, nofun⟩ | cases h

theorem bare_eq (h : Retagged change f g) : g.bare = f.bare.mapTags change := by
  induction h with
  | nil => rfl
  | leaf kinds _ ih => rw [Forest.bare, Forest.bare, Forest.mapTags, ih, kinds]
  | element _ _ ihc ih => rw [Forest.bare, Forest.bare, Forest.mapTags, ihc, ih]

theorem isNil_eq (h : Retagged change f g) : g.isNil = f.isNil := by
  cases h <;> rfl

theorem tags_elements (h : Retagged change f g) :
    g.elements.map (·.tag) = (f.elements.map (·.tag)).map change := by
  induction h with
  | nil => rfl
  | leaf _ _ ih => exact ih
  | element _ _ _ ih => simp only [Forest.elements, List.map_cons, ih]

theorem tags_descendants (h : Retagged change f g) :
    g.descendants.map (·.tag) = (f.descendants.map (·.tag)).map change := by
  induction h with
  | nil => rfl
  | leaf _ _ ih => exact ih
  | element _ _ ihc ih =>
    simp only [Forest.descendants, List.map_cons, List.map_append, ihc, ih]

theorem bare (h : Retagged change f g) : Retagged change f.bare g.bare := by
  induction h with
  | nil => exact .nil
  | @leaf _ kind other _ _ _ kinds _ ih =>
    refine .leaf ?_ ih
    rw [kinds]
  | element _ _ ihc ih => exact .element ihc ih

theorem append {f' g' : Forest α} (h : Retagged change f g) (h' : Retagged change f' g') :
    Retagged change (f ++ f') (g ++ g') := by
  induction h with
  | nil => exact h'
  | leaf kinds _ ih => exact .leaf kinds ih
  | element inside _ _ ih => exact .element inside ih

theorem number (h : Retagged change f g) (next : Nat) :
    Retagged change (f.number next).1 (g.number next).1 ∧
      (g.number next).2 = (f.number next).2 := by
  induction h generalizing next with
  | nil => exact ⟨.nil, rfl⟩
  | leaf kinds _ ih =>
    obtain ⟨hr, hn⟩ := ih (next + 1)
    exact ⟨.leaf kinds hr, hn⟩
  | @element m t inner within f g _ _ ihc ih =>
    obtain ⟨hc, hm⟩ := ihc (next + 1)
    obtain ⟨hr, hn⟩ := ih (inner.number (next + 1)).2
    simp only [Forest.number, hm]
    exact ⟨.element hc hr, hn⟩

theorem leading (h : Retagged change f g) : Retagged change f.leading g.leading := by
  induction h with
  | nil => exact .nil
  | leaf kinds _ ih =>
    refine .leaf ?_ ih
    obtain ⟨k, k', rfl, rfl⟩ | ⟨rfl, -⟩ := kind_cases kinds
    · rfl
    · rfl
  | element inside _ _ ih => exact .element inside ih

theorem replace {new new' : Forest α} (h : Retagged change f g) (hnew : Retagged change new new')
    (wanted : α → Bool) : Retagged change (f.replace wanted new) (g.replace wanted new') := by
  induction h with
  | nil => exact .nil
  | leaf kinds rest ih =>
    rw [Forest.replace, Forest.replace]
    split
    · exact hnew.append rest
    · exact .leaf kinds ih
  | element inside rest ihc ih =>
    rw [Forest.replace, Forest.replace]
    split
    · exact hnew.append rest
    · exact .element ihc ih

theorem adapt {new new' : Forest α} (h : Retagged change f g) (hnew : Retagged change new new')
    (wanted : α → Bool) : Retagged change (f.adapt wanted fun t _ => (t, new))
      (g.adapt wanted fun t _ => (t, new')) := by
  induction h with
  | nil => exact .nil
  | leaf kinds rest ih => exact .leaf kinds ih
  | element inside rest ihc ih =>
    rw [Forest.adapt, Forest.adapt]
    split
    · exact .element hnew rest
    · exact .element ihc ih

theorem mapTags (h : Retagged change f g) (edit edit' : Tag → Tag)
    (hc : ∀ t ∈ f.descendants.map (·.tag), edit' (change t) = change (edit t)) :
    Retagged change (f.mapTags edit) (g.mapTags edit') := by
  induction h with
  | nil => exact .nil
  | leaf kinds _ ih => exact .leaf kinds (ih hc)
  | element _ _ ihc ih =>
    simp only [Forest.descendants, List.map_cons, List.map_append, List.forall_mem_cons,
      List.forall_mem_append] at hc
    rw [Forest.mapTags, Forest.mapTags, hc.1]
    exact .element (ihc hc.2.1) (ih hc.2.2)

theorem mapTop {edit edit' : Tag → Tag} (h : Retagged change f g)
    (hc : ∀ t ∈ f.elements.map (·.tag), edit' (change t) = change (edit t)) :
    Retagged change (f.mapTop edit) (g.mapTop edit') := by
  induction h with
  | nil => exact .nil
  | leaf kinds _ ih => exact .leaf kinds (ih hc)
  | element inside _ _ ih =>
    obtain ⟨ht, hr⟩ := List.forall_mem_cons.mp hc
    rw [Forest.mapTop, Forest.mapTop, ht]
    exact .element inside (ih hr)

theorem refl {f : Forest α} (h : ∀ t ∈ f.descendants.map (·.tag), change t = t) :
    Retagged change f f := by
  induction f with
  | nil => exact .nil
  | leaf m kind content next ih => exact .leaf rfl (ih h)
  | element m t children next ihc ih =>
    simp only [Forest.descendants, List.map_cons, List.map_append, List.forall_mem_cons,
      List.forall_mem_append] at h
    have hself := Retagged.element (m := m) (t := t) (ihc h.2.1) (ih h.2.2)
    rwa [h.1] at hself

theorem of_mapTags (change : Tag → Tag) (f : Forest α) : Retagged change f (f.mapTags change) := by
  induction f with
  | nil => exact .nil
  | leaf m kind content next ih => exact .leaf rfl ih
  | element m t children next ihc ih => exact .element ihc ih

theorem clear {P Q : Tag → Prop}
    (hc : ∀ t, P t → Q (change t) ∧ ((change t).void = true → t.void = true))
    (h : Retagged change f g) (hf : f.Clear P) : g.Clear Q := by
  induction h with
  | nil => trivial
  | @leaf m kind other content f g kinds _ ih =>
    cases kind with
    | text k =>
      obtain ⟨_, k', -, rfl⟩ | ⟨-, hk⟩ := kind_cases kinds
      · exact ⟨hf.1, ih hf.2⟩
      · exact absurd rfl (hk k)
    | comment =>
      obtain ⟨k, _, hk, -⟩ | ⟨rfl, -⟩ := kind_cases kinds
      · cases hk
      · exact ⟨hf.1, ih hf.2⟩
    | _ => exact absurd hf id
  | element inside rest ihc ih =>
    obtain ⟨ht, hhollow, hchildren, hnext⟩ := hf
    obtain ⟨hq, hv⟩ := hc _ ht
    exact ⟨hq, fun hvoid => inside.isNil_eq.trans (hhollow (hv hvoid)), ihc hchildren, ih hnext⟩

-- ---------------------------------------------------------------------------
-- Places

/-- Corresponding places of the two forests. -/
structure Places (change : Tag → Tag) (place other : Place α) : Prop where
  mark : other.mark = place.mark
  before : other.before.map (·.tag) = (place.before.map (·.tag)).map change
  after : other.after.map (·.tag) = (place.after.map (·.tag)).map change
  node : ∀ {t : Tag} {children : Forest α}, place.node = .element t children →
    ∃ within, other.node = .element (change t) within ∧ Retagged change children within

/-- What looks at elements only, and sees the same in both forests, finds the same. -/
theorem placeAfter? {wanted wanted' : α → Node α → Bool}
    (hleaf : ∀ m kind content, wanted m (.leaf kind content) = false)
    (hleaf' : ∀ m kind content, wanted' m (.leaf kind content) = false)
    (h : Retagged change f g)
    (hc : ∀ t ∈ f.descendants.map (·.tag), ∀ m inner within,
      wanted' m (.element (change t) within) = wanted m (.element t inner))
    {before before' : List (Element α)}
    (hb : before'.map (·.tag) = (before.map (·.tag)).map change) :
    Option.Rel (Places change) (f.placeAfter? wanted before) (g.placeAfter? wanted' before') := by
  induction h generalizing before before' with
  | nil => exact .none
  | leaf kinds rest ih =>
    rw [Forest.placeAfter?, Forest.placeAfter?, hleaf, hleaf', if_neg Bool.false_ne_true,
      if_neg Bool.false_ne_true]
    exact ih hc hb
  | @element m t inner within f g inside rest ihc ih =>
    simp only [Forest.descendants, List.map_cons, List.map_append, List.forall_mem_cons,
      List.forall_mem_append] at hc
    rw [Forest.placeAfter?, Forest.placeAfter?, hc.1 m inner within]
    split
    · refine .some ⟨rfl, hb, rest.tags_elements, fun hn => ?_⟩
      cases hn
      exact ⟨within, rfl, inside⟩
    · have hinside : Option.Rel (Places change) (inner.placeAfter? wanted [])
          (within.placeAfter? wanted' []) := ihc hc.2.1 rfl
      generalize inner.placeAfter? wanted [] = a at hinside ⊢
      generalize within.placeAfter? wanted' [] = b at hinside ⊢
      cases hinside with
      | some hp => exact .some hp
      | none => exact ih hc.2.2 (by simp only [List.map_cons, hb])

-- ---------------------------------------------------------------------------
-- Reading again

theorem textNode {f g : Forest Unit} (h : Retagged change f g) {opened opened' : List String}
    (ho : opened'.any Grammar.standard.keepsBlanks.contains =
      opened.any Grammar.standard.keepsBlanks.contains) (content : String) :
    Retagged change (Forest.textNode opened content f) (Forest.textNode opened' content g) := by
  unfold Forest.textNode
  split
  · exact h
  · rw [ho]
    exact .leaf rfl h

theorem reread (h : Retagged change f g)
    (hr : ∀ t ∈ f.descendants.map (·.tag), (change t).reread = change t.reread ∧
      Grammar.standard.keepsBlanks.contains (change t).reread.name =
        Grammar.standard.keepsBlanks.contains t.reread.name)
    {opened opened' : List String} (ho : opened'.any Grammar.standard.keepsBlanks.contains =
      opened.any Grammar.standard.keepsBlanks.contains) (before : String) :
    Retagged change (f.reread opened before) (g.reread opened' before) := by
  induction h generalizing opened opened' before with
  | nil => exact textNode .nil ho before
  | @leaf m kind other content f g kinds _ ih =>
    obtain ⟨k, k', rfl, rfl⟩ | ⟨rfl, hk⟩ := kind_cases kinds
    · exact ih hr ho (before ++ content)
    · cases other with
      | text k => exact absurd rfl (hk k)
      | _ =>
        simp only [Forest.reread, ho]
        exact textNode (.leaf rfl (ih hr ho "")) ho before
  | @element m t inner within f g _ _ ihc ih =>
    simp only [Forest.descendants, List.map_cons, List.map_append, List.forall_mem_cons,
      List.forall_mem_append] at hr
    obtain ⟨⟨hread, hkeeps⟩, hinside, hrest⟩ := hr
    rw [Forest.reread, Forest.reread]
    refine textNode ?_ ho before
    have hopened : ((change t).reread.name :: opened').any Grammar.standard.keepsBlanks.contains =
        (t.reread.name :: opened).any Grammar.standard.keepsBlanks.contains := by
      rw [List.any_cons, List.any_cons, hkeeps, ho]
    have helement := Retagged.element (m := ()) (t := t.reread) (ihc hinside hopened "")
      (ih hrest ho "")
    rwa [← hread] at helement

end Retagged

end Mailgrid.Markup
