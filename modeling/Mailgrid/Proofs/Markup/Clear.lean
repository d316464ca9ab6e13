import Mailgrid.Proofs.Markup.Plain
import Mailgrid.Proofs.Template

/-!
# Clear forests

A clear forest stays clear when nodes are replaced or changed in place, and
when it is written, perhaps inside a template, and read again.
-/

namespace Mailgrid

open Markup (Element Forest Node Place Tag)

namespace Markup.Forest

variable {P : Tag → Prop} {f g new : Forest α}

theorem clear_append : (f ++ g).Clear P ↔ f.Clear P ∧ g.Clear P := by
  induction f with
  | nil => simp [Clear]
  | leaf m kind content next ih =>
    rw [leaf_append]
    cases kind <;> simp only [Clear, ih, and_assoc, false_and]
  | element m tag children next _ ih => simp only [element_append, Clear, ih, and_assoc]

theorem clear_bare : f.bare.Clear P ↔ f.Clear P := by
  induction f with
  | nil => exact Iff.rfl
  | leaf m kind content next ih =>
    cases kind with
    | text | comment => exact and_congr_right fun _ => ih
    | _ => exact Iff.rfl
  | element m tag children next ihc ih => simp only [bare, Clear, isNil_bare, ihc, ih]

theorem Clear.of_mem_descendants (h : f.Clear P) {e : Element α} (he : e ∈ f.descendants) :
    P e.tag ∧ e.children.Clear P := by
  induction f with
  | nil => cases he
  | leaf m kind content next ih =>
    cases kind with
    | text | comment => exact ih h.2 he
    | _ => exact absurd h id
  | element m tag children next ihc ih =>
    obtain ⟨htag, -, hchildren, hnext⟩ := h
    simp only [descendants, List.mem_cons, List.mem_append] at he
    rcases he with rfl | he | he
    · exact ⟨htag, hchildren⟩
    · exact ihc hchildren he
    · exact ih hnext he

theorem Clear.tags (h : f.Clear P) : ∀ t ∈ f.descendants.map (·.tag), P t := by
  intro t ht
  obtain ⟨e, he, rfl⟩ := List.mem_map.mp ht
  exact (h.of_mem_descendants he).1

theorem Clear.replace (h : f.Clear P) (hnew : new.Clear P) (wanted : α → Bool) :
    (f.replace wanted new).Clear P := by
  induction f with
  | nil => trivial
  | leaf m kind content next ih =>
    rw [Forest.replace]
    split
    · refine clear_append.mpr ⟨hnew, ?_⟩
      cases kind with
      | text | comment => exact h.2
      | _ => exact absurd h id
    · cases kind with
      | text | comment => exact ⟨h.1, ih h.2⟩
      | _ => exact absurd h id
  | element m tag children next ihc ih =>
    obtain ⟨ht, hhollow, hchildren, hnext⟩ := h
    rw [Forest.replace]
    split
    · exact clear_append.mpr ⟨hnew, hnext⟩
    · refine ⟨ht, fun hv => ?_, ihc hchildren, ih hnext⟩
      cases children with
      | nil => rfl
      | _ => cases hhollow hv

theorem Clear.adapt (h : f.Clear P) (hnew : new.Clear P) {wanted : α → Bool}
    (hw : ∀ e ∈ f.descendants, wanted e.mark = true → e.tag.void = false) :
    (f.adapt wanted fun t _ => (t, new)).Clear P := by
  induction f with
  | nil => trivial
  | leaf m kind content next ih =>
    cases kind with
    | text | comment => exact ⟨h.1, ih h.2 hw⟩
    | _ => exact absurd h id
  | element m tag children next ihc ih =>
    simp only [descendants, List.forall_mem_cons, List.forall_mem_append] at hw
    obtain ⟨ht, hhollow, hchildren, hnext⟩ := h
    rw [Forest.adapt]
    split
    · rename_i hm
      exact ⟨ht, fun hv => absurd hv (by simp [hw.1 hm]), hnew, hnext⟩
    · refine ⟨ht, fun hv => ?_, ihc hchildren hw.2.1, ih hnext hw.2.2⟩
      cases children with
      | nil => rfl
      | _ => cases hhollow hv

section
variable {change : Tag → Tag}

theorem Clear.mapTags (hc : ∀ t, P t → P (change t) ∧ (change t).void = t.void)
    (h : f.Clear P) : (f.mapTags change).Clear P := by
  induction f with
  | nil => trivial
  | leaf m kind content next ih =>
    cases kind with
    | text | comment => exact ⟨h.1, ih h.2⟩
    | _ => exact absurd h id
  | element m tag children next ihc ih =>
    obtain ⟨ht, hhollow, hchildren, hnext⟩ := h
    obtain ⟨hp, hv⟩ := hc tag ht
    refine ⟨hp, fun hvoid => ?_, ihc hchildren, ih hnext⟩
    rw [isNil_mapTags]
    exact hhollow (hv ▸ hvoid)

theorem Clear.mapTop (hc : ∀ t, P t → P (change t) ∧ (change t).void = t.void)
    (h : f.Clear P) : (f.mapTop change).Clear P := by
  induction f with
  | nil => trivial
  | leaf m kind content next ih =>
    cases kind with
    | text | comment => exact ⟨h.1, ih h.2⟩
    | _ => exact absurd h id
  | element m tag children next _ ih =>
    obtain ⟨ht, hhollow, hchildren, hnext⟩ := h
    obtain ⟨hp, hv⟩ := hc tag ht
    exact ⟨hp, fun hvoid => hhollow (hv ▸ hvoid), hchildren, ih hnext⟩

end

/-- A place in a clear forest. -/
structure ClearPlace (P : Tag → Prop) (place : Place α) : Prop where
  node : ∀ {t : Tag} {children : Forest α}, place.node = .element t children →
    P t ∧ children.Clear P
  before : ∀ t ∈ place.before.map (·.tag), P t
  after : ∀ t ∈ place.after.map (·.tag), P t

theorem Clear.elements (h : f.Clear P) : ∀ t ∈ f.elements.map (·.tag), P t := by
  induction f with
  | nil => exact nofun
  | leaf m kind content next ih =>
    cases kind with
    | text | comment => exact ih h.2
    | _ => exact absurd h id
  | element m tag children next _ ih => exact List.forall_mem_cons.mpr ⟨h.1, ih h.2.2.2⟩

theorem Clear.placeAfter? (h : f.Clear P) {wanted : α → Node α → Bool}
    {before : List (Element α)} (hb : ∀ t ∈ before.map (·.tag), P t) {place : Place α}
    (hp : f.placeAfter? wanted before = some place) : ClearPlace P place := by
  induction f generalizing before with
  | nil => cases hp
  | leaf m kind content next ih =>
    have hnext : next.Clear P := by
      cases kind with
      | text | comment => exact h.2
      | _ => exact absurd h id
    rw [Forest.placeAfter?] at hp
    split at hp
    · cases hp
      refine ⟨fun hnode => ?_, hb, hnext.elements⟩
      cases hnode
    · exact ih hnext hb hp
  | element m tag inner next ihc ih =>
    obtain ⟨ht, -, hinner, hnext⟩ := h
    rw [Forest.placeAfter?] at hp
    split at hp
    · cases hp
      refine ⟨fun hnode => ?_, hb, hnext.elements⟩
      cases hnode
      exact ⟨ht, hinner⟩
    · split at hp
      · rename_i hfound
        cases hp
        exact ihc hinner (List.forall_mem_nil _) hfound
      · have hbefore : ∀ t ∈ (⟨m, tag, inner⟩ :: before : List (Element α)).map (·.tag), P t :=
          List.forall_mem_cons.mpr ⟨ht, hb⟩
        exact ih hnext hbefore hp

-- ---------------------------------------------------------------------------
-- Below a document type

/-- Clear, perhaps below a document type. -/
def ClearBelow (P : Tag → Prop) : Forest α → Prop
  | leaf _ .leadingDocType _ next => next.Clear P
  | f => f.Clear P

theorem clearBelow_cases : f.ClearBelow P ↔
    f.Clear P ∨ ∃ m content next, f = leaf m .leadingDocType content next ∧ next.Clear P := by
  unfold ClearBelow
  split
  · rename_i m content next
    refine ⟨fun h => .inr ⟨m, content, next, rfl, h⟩, ?_⟩
    rintro (h | ⟨_, _, _, he, h⟩)
    · exact absurd h id
    · cases he
      exact h
  · rename_i hno
    refine ⟨.inl, ?_⟩
    rintro (h | ⟨m, content, next, rfl, -⟩)
    · exact h
    · exact absurd rfl (hno m content next)

theorem ClearBelow.tags (h : f.ClearBelow P) : ∀ t ∈ f.descendants.map (·.tag), P t := by
  obtain h | ⟨_, _, next, rfl, h⟩ := clearBelow_cases.mp h
  · exact h.tags
  · exact h.tags

theorem ClearBelow.replace (h : f.ClearBelow P) (hnew : new.Clear P) (wanted : α → Bool) :
    (f.replace wanted new).ClearBelow P := by
  obtain h | ⟨_, _, next, rfl, h⟩ := clearBelow_cases.mp h
  · exact clearBelow_cases.mpr (.inl (h.replace hnew wanted))
  · rw [Forest.replace]
    split
    · exact clearBelow_cases.mpr (.inl (clear_append.mpr ⟨hnew, h⟩))
    · exact h.replace hnew wanted

theorem ClearBelow.adapt (h : f.ClearBelow P) (hnew : new.Clear P) {wanted : α → Bool}
    (hw : ∀ e ∈ f.descendants, wanted e.mark = true → e.tag.void = false) :
    (f.adapt wanted fun t _ => (t, new)).ClearBelow P := by
  obtain h | ⟨_, _, next, rfl, h⟩ := clearBelow_cases.mp h
  · exact clearBelow_cases.mpr (.inl (h.adapt hnew hw))
  · exact h.adapt hnew hw

theorem ClearBelow.place? (h : f.ClearBelow P) {wanted : α → Node α → Bool} {place : Place α}
    (hp : f.place? wanted = some place) : ClearPlace P place := by
  rw [Forest.place?] at hp
  obtain h | ⟨_, _, next, rfl, h⟩ := clearBelow_cases.mp h
  · exact h.placeAfter? (List.forall_mem_nil _) hp
  · rw [Forest.placeAfter?] at hp
    split at hp
    · cases hp
      refine ⟨fun hnode => ?_, List.forall_mem_nil _, h.elements⟩
      cases hnode
    · exact h.placeAfter? (List.forall_mem_nil _) hp

-- ---------------------------------------------------------------------------
-- Reading again

theorem all_settled {p : Char → Bool} (hspace : p ' ' = true) (hline : p '\n' = true)
    {content : String} (h : content.toList.all p = true) (keeps : Bool) :
    (Growth.settled keeps content).toList.all p = true := by
  unfold Growth.settled
  split
  · split
    · simp [hline]
    · simp [hspace]
  · exact h

theorem clear_textNode {content : String} (h : content.toList.all Token.isPlain = true)
    (opened : List String) (next : Forest Unit) (hnext : next.Clear P) :
    (textNode opened content next).Clear P := by
  unfold textNode
  split
  · exact hnext
  · exact ⟨all_settled rfl rfl h _, hnext⟩

theorem clear_reread (h : (f.mapTags Tag.reread).Clear P) (opened : List String) {before : String}
    (hb : before.toList.all Token.isPlain = true) : (f.reread opened before).Clear P := by
  induction f generalizing opened before with
  | nil => exact clear_textNode hb opened nil trivial
  | leaf m kind content next ih =>
    cases kind with
    | text kind =>
      refine ih h.2 opened ?_
      rw [String.toList_append, List.all_append, hb, h.1]
      rfl
    | comment =>
      obtain ⟨⟨hdash, hamp⟩, hnext⟩ := h
      refine clear_textNode hb opened (leaf ..) ⟨?_, ih hnext opened rfl⟩
      have hall : content.toList.all (fun c => c != '-' && c != '&') = true := by
        rw [List.all_eq_true]
        intro c hc
        have h₁ : c ≠ '-' := fun he => hdash (he ▸ hc)
        have h₂ : c ≠ '&' := fun he => hamp (he ▸ hc)
        simp [h₁, h₂]
      have hsettled := all_settled rfl rfl hall (opened.any Grammar.standard.keepsBlanks.contains)
      rw [List.all_eq_true] at hsettled
      exact ⟨fun hm => absurd (hsettled _ hm) (by decide),
        fun hm => absurd (hsettled _ hm) (by decide)⟩
    | _ => exact absurd h id
  | element m tag children next ihc ih =>
    obtain ⟨ht, hhollow, hchildren, hnext⟩ := h
    refine clear_textNode hb opened (element ..)
      ⟨ht, fun hv => ?_, ihc hchildren _ rfl, ih hnext opened rfl⟩
    have hnil := hhollow hv
    rw [isNil_mapTags] at hnil
    cases children with
    | nil => rfl
    | _ => cases hnil

theorem Clear.mapTags_reread (hP : ∀ t, P t → t.Verbatim) (h : f.Clear P) :
    f.mapTags Tag.reread = f :=
  mapTags_eq_self fun t ht => (hP t (h.tags t ht)).reread

end Markup.Forest

-- ---------------------------------------------------------------------------
-- Templates

theorem Template.clear_written {P : Tag → Prop} (hP : ∀ t, P t → t.Plain) {t : Template}
    (h : t.Plain) (hn : ∀ name ∈ t.names, ∀ s : Tag, s.Plain → s.name = name → P s)
    {inner : Forest Unit} (hi : inner.Clear P) :
    ((t.written inner).mapTags Tag.reread).Clear P := by
  induction t with
  | nil => trivial
  | piece markup next ih =>
    obtain ⟨hpiece, hnext⟩ := h
    have hmap (f g : Forest Unit) : (f ++ g).mapTags Tag.reread =
        f.mapTags Tag.reread ++ g.mapTags Tag.reread := by
      induction f with
      | nil => rfl
      | leaf m kind content next ih => exact congrArg (Forest.leaf m kind content) ih
      | element m tag children next _ ih => exact congrArg (Forest.element m _ _) ih
    rw [written, hmap, Forest.clear_append]
    refine ⟨?_, ih hnext hn⟩
    by_cases hm : markup = ""
    · rw [pieceForest, if_pos hm, hi.mapTags_reread fun s hs => (hP s hs).verbatim]
      exact hi
    · rw [if_neg hm] at hpiece
      rw [pieceForest, if_neg hm]
      exact ⟨hpiece.1.2.1, trivial⟩
  | element name attributes content next ihc ih =>
    obtain ⟨helement, ha, -, hcontent, hnext⟩ := h
    have hinside : ∀ x ∈ content.names, ∀ s : Tag, s.Plain → s.name = x → P s := fun x hx =>
      hn x (List.mem_cons_of_mem _ (List.mem_append_left _ hx))
    have hbehind : ∀ x ∈ next.names, ∀ s : Tag, s.Plain → s.name = x → P s := fun x hx =>
      hn x (List.mem_cons_of_mem _ (List.mem_append_right _ hx))
    rw [written, Forest.mapTags, reread_writtenTag helement ha.lower]
    exact ⟨hn name List.mem_cons_self _ (plain_tag helement ha) rfl,
      fun hvoid => absurd hvoid Bool.false_ne_true, ihc hcontent hinside, ih hnext hbehind⟩

end Mailgrid
