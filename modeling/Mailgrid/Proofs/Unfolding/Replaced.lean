import Mailgrid.Proofs.Markup.Outline
import Mailgrid.Proofs.Unfolding.Unfolded
import Mathlib.Data.List.Nodup

/-!
# One replaced element

`Replaced`: two forests that are the same but for one place, where the first
has an element and the second has something else. What the change does there,
it does to the whole forest: to its columns, to its plainness and to what it
unfolds to. On the way to the place lie elements that let the change through.
-/

namespace Mailgrid

open Markup (Element Forest Node Place Tag)

namespace Expansion

/-- An element, with what stands behind it and the number of columns before it. -/
structure Spot (α : Type) where
  mark : α
  tag : Tag
  children : Forest α
  next : Forest α
  before : Nat

/-- The second forest has `new` in the place of the element; so many columns are before both. -/
inductive Replaced (s : Spot α) (new : Forest α) (through : α → Tag → Prop) :
    Nat → Forest α → Forest α → Prop where
  | here : Replaced s new through s.before (.element s.mark s.tag s.children s.next)
      (new ++ s.next)
  | leaf {m : α} (kind : Markup.LeafKind) (content : String) (apart : m ≠ s.mark)
      (rest : Replaced s new through before f g) :
      Replaced s new through before (.leaf m kind content f) (.leaf m kind content g)
  | inside {m : α} {t : Tag} {behind : Forest α} (apart : m ≠ s.mark)
      (outside : s.mark ∉ behind.marks) (open_ : through m t)
      (rest : Replaced s new through 0 f g) :
      Replaced s new through before (.element m t f behind) (.element m t g behind)
  | behind {m : α} {t : Tag} {inner : Forest α} (apart : m ≠ s.mark)
      (outside : s.mark ∉ inner.marks)
      (rest : Replaced s new through (before + (isColumnTag t).toNat) f g) :
      Replaced s new through before (.element m t inner f) (.element m t inner g)

variable {α : Type} {s : Spot α} {new f g : Forest α} {through : α → Tag → Prop} {before : Nat}

-- ---------------------------------------------------------------------------
-- Searching and changing

theorem Replaced.mem_marks (h : Replaced s new through before f g) : s.mark ∈ f.marks := by
  induction h with
  | here => exact List.mem_cons_self
  | leaf _ _ _ _ ih => exact List.mem_cons_of_mem _ ih
  | inside _ _ _ _ ih => exact List.mem_cons_of_mem _ (List.mem_append_left _ ih)
  | behind _ _ _ ih => exact List.mem_cons_of_mem _ (List.mem_append_right _ ih)

/-- What is found can be replaced. Elements around it were not wanted. -/
theorem replaced_of_placeAfter? {wanted : α → Node α → Bool} {look : α → Tag → Bool}
    (hl : ∀ m t children, wanted m (.element t children) = look m t)
    {around : List (Element α)} {place : Place α} (h : f.placeAfter? wanted around = some place)
    (hn : f.marks.Nodup) {t : Tag} {children : Forest α} (hnode : place.node = .element t children) :
    ∃ next, place.after = next.elements ∧ ∀ new, ∃ g,
      Replaced ⟨place.mark, t, children, next, place.before.countP fun e => isColumnTag e.tag⟩ new
        (fun m t => look m t = false) (around.countP fun e => isColumnTag e.tag) f g := by
  induction f generalizing around with
  | nil => cases h
  | leaf m kind content next ih =>
    simp only [Forest.marks, List.nodup_cons] at hn
    simp only [Forest.placeAfter?] at h
    split at h
    · cases h
      cases hnode
    · obtain ⟨behind, ha, hr⟩ := ih h hn.2
      refine ⟨behind, ha, fun new => ?_⟩
      obtain ⟨g, hg⟩ := hr new
      refine ⟨_, .leaf kind content ?_ hg⟩
      rintro rfl
      exact hn.1 hg.mem_marks
  | element m tag inner next ihc ih =>
    simp only [Forest.marks, List.nodup_cons, List.mem_append, not_or, List.nodup_append] at hn
    obtain ⟨⟨hmi, hmn⟩, hinner, hnext, hdisjoint⟩ := hn
    simp only [Forest.placeAfter?] at h
    split at h
    · cases h
      cases hnode
      exact ⟨next, rfl, fun new => ⟨_, .here⟩⟩
    · rename_i hw
      replace hw : look m tag = false := by simpa [hl] using hw
      split at h
      · rename_i hfound
        cases h
        obtain ⟨behind, ha, hr⟩ := ihc hfound hinner
        refine ⟨behind, ha, fun new => ?_⟩
        obtain ⟨g, hg⟩ := hr new
        refine ⟨_, .inside ?_ ?_ hw hg⟩
        · rintro rfl
          exact hmi hg.mem_marks
        · exact fun hm => hdisjoint _ hg.mem_marks _ hm rfl
      · obtain ⟨behind, ha, hr⟩ := ih h hnext
        refine ⟨behind, ha, fun new => ?_⟩
        obtain ⟨g, hg⟩ := hr new
        have hcount : (⟨m, tag, inner⟩ :: around).countP (fun e => isColumnTag e.tag) =
            (around.countP fun e => isColumnTag e.tag) + (isColumnTag tag).toNat := by
          rw [List.countP_cons]
          cases isColumnTag tag <;> rfl
        refine ⟨_, .behind ?_ ?_ (hcount ▸ hg)⟩
        · rintro rfl
          exact hmn hg.mem_marks
        · exact fun hm => hdisjoint _ hm _ hg.mem_marks rfl

section
variable [BEq α] [LawfulBEq α]

theorem Replaced.eq_replace (h : Replaced s new through before f g) :
    f.replace (· == s.mark) new = g := by
  induction h with
  | here => simp [Forest.replace]
  | leaf kind content apart _ ih => simp [Forest.replace, apart, ih]
  | @inside f g before m t behind apart outside _ _ ih =>
    have hb : behind.replace (· == s.mark) new = behind :=
      Forest.replace_of_not_mem new fun m hm => beq_false_of_ne fun h => outside (h ▸ hm)
    simp [Forest.replace, apart, ih, hb]
  | @behind before f g m t inner apart outside _ ih =>
    have hi : inner.replace (· == s.mark) new = inner :=
      Forest.replace_of_not_mem new fun m hm => beq_false_of_ne fun h => outside (h ▸ hm)
    simp [Forest.replace, apart, ih, hi]

theorem Replaced.eq_adapt (h : Replaced s new through before f g)
    (change : Tag → Forest α → Tag × Forest α)
    (hn : new = .element s.mark (change s.tag s.children).1 (change s.tag s.children).2 .nil) :
    f.adapt (· == s.mark) change = g := by
  induction h with
  | here => simp [Forest.adapt, hn]
  | leaf kind content apart _ ih => simp [Forest.adapt, ih]
  | @inside f g before m t behind apart outside _ _ ih =>
    have hb : behind.adapt (· == s.mark) change = behind :=
      Forest.adapt_of_not_mem change fun m hm => beq_false_of_ne fun h => outside (h ▸ hm)
    simp [Forest.adapt, apart, ih, hb]
  | @behind before f g m t inner apart outside _ ih =>
    have hi : inner.adapt (· == s.mark) change = inner :=
      Forest.adapt_of_not_mem change fun m hm => beq_false_of_ne fun h => outside (h ▸ hm)
    simp [Forest.adapt, apart, ih, hi]

end

theorem Replaced.marks_eq (h : Replaced s new through before f g) :
    ∃ front back, f.marks = front ++ ((s.mark :: s.children.marks) ++ back) ∧
      g.marks = front ++ (new.marks ++ back) := by
  induction h with
  | here => exact ⟨[], s.next.marks, rfl, Forest.marks_append _ _⟩
  | @leaf before f g m _ _ _ _ ih =>
    obtain ⟨front, back, hf, hg⟩ := ih
    exact ⟨m :: front, back, by simp [Forest.marks, hf], by simp [Forest.marks, hg]⟩
  | @inside f g before m t behind _ _ _ _ ih =>
    obtain ⟨front, back, hf, hg⟩ := ih
    exact ⟨m :: front, back ++ behind.marks, by simp [Forest.marks, hf],
      by simp [Forest.marks, hg]⟩
  | @behind before f g m t inner _ _ _ ih =>
    obtain ⟨front, back, hf, hg⟩ := ih
    exact ⟨m :: (inner.marks ++ front), back, by simp [Forest.marks, hf],
      by simp [Forest.marks, hg]⟩

-- ---------------------------------------------------------------------------
-- What the change does to the whole forest

theorem Replaced.isNil_left (h : Replaced s new through before f g) : f.isNil = false := by
  cases h <;> rfl

theorem Replaced.isNil_right (h : Replaced s new through before f g) (hn : new.isNil = false) :
    g.isNil = false := by
  cases h with
  | here =>
    cases new with
    | nil => cases hn
    | _ => rfl
  | _ => rfl

theorem Replaced.mono {others : α → Tag → Prop} (h : Replaced s new through before f g)
    (ho : ∀ e ∈ f.descendants, e.children.isNil = false → through e.mark e.tag →
      others e.mark e.tag) : Replaced s new others before f g := by
  induction h with
  | here => exact .here
  | leaf kind content apart _ ih => exact .leaf kind content apart (ih ho)
  | inside apart outside open_ rest ih =>
    simp only [Forest.descendants, List.forall_mem_cons, List.forall_mem_append] at ho
    exact .inside apart outside (ho.1 rest.isNil_left open_) (ih ho.2.1)
  | behind apart outside _ ih =>
    simp only [Forest.descendants, List.forall_mem_cons, List.forall_mem_append] at ho
    exact .behind apart outside (ih ho.2.2)

theorem columnCount_append (f g : Forest α) :
    columnCount (f ++ g) = columnCount f + columnCount g := by
  rw [columnCount, Forest.elements_append, List.countP_append]
  rfl

theorem Replaced.columnCount_eq (h : Replaced s new through before f g)
    (hn : columnCount new = (isColumnTag s.tag).toNat) : columnCount g = columnCount f := by
  induction h with
  | here => rw [columnCount_append, columnCount_element, hn]
  | leaf _ _ _ _ ih => exact ih
  | inside => rw [columnCount_element, columnCount_element]
  | behind _ _ _ ih => rw [columnCount_element, columnCount_element, ih]

/-- Whether a forest has an element of some sort is up to the rest of it or to the change. -/
theorem Replaced.any_tags (h : Replaced s new through before f g) (P : Tag → Bool) :
    ∃ rest : Bool,
      (f.descendants.any fun e => P e.tag) =
        (rest || (P s.tag || s.children.descendants.any fun e => P e.tag)) ∧
      (g.descendants.any fun e => P e.tag) = (rest || new.descendants.any fun e => P e.tag) := by
  induction h with
  | here =>
    refine ⟨s.next.descendants.any fun e => P e.tag, ?_, ?_⟩
    · simp only [Forest.descendants, List.any_cons, List.any_append]
      ac_rfl
    · rw [Forest.descendants_append, List.any_append, Bool.or_comm]
  | leaf _ _ _ _ ih => exact ih
  | @inside f g before m t behind _ _ _ _ ih =>
    obtain ⟨rest, hf, hg⟩ := ih
    refine ⟨P t || (behind.descendants.any fun e => P e.tag) || rest, ?_, ?_⟩
    · simp only [Forest.descendants, List.any_cons, List.any_append, hf]
      ac_rfl
    · simp only [Forest.descendants, List.any_cons, List.any_append, hg]
      ac_rfl
  | @behind before f g m t inner _ _ _ ih =>
    obtain ⟨rest, hf, hg⟩ := ih
    refine ⟨P t || (inner.descendants.any fun e => P e.tag) || rest, ?_, ?_⟩
    · simp only [Forest.descendants, List.any_cons, List.any_append, hf]
      ac_rfl
    · simp only [Forest.descendants, List.any_cons, List.any_append, hg]
      ac_rfl

theorem Replaced.every (h : Replaced s new through before f g) {P : Tag → Bool → Prop}
    (hn : new.isNil = false) (hf : f.Every P) (hnew : new.Every P) : g.Every P := by
  induction h with
  | here => exact Forest.every_append.mpr ⟨hnew, (Forest.every_element.mp hf).2.2⟩
  | leaf _ _ _ _ ih => exact ih hf
  | inside _ _ _ rest ih =>
    obtain ⟨ht, hi, hb⟩ := Forest.every_element.mp hf
    refine Forest.every_element.mpr ⟨?_, ih hi, hb⟩
    rwa [rest.isNil_right hn, ← rest.isNil_left]
  | behind _ _ _ ih =>
    obtain ⟨ht, hi, hb⟩ := Forest.every_element.mp hf
    exact Forest.every_element.mpr ⟨ht, hi, ih hb⟩

theorem Replaced.every_spot (h : Replaced s new through before f g) {P : Tag → Bool → Prop}
    (hf : f.Every P) : P s.tag s.children.isNil ∧ s.children.Every P := by
  induction h with
  | here =>
    obtain ⟨ht, hi, -⟩ := Forest.every_element.mp hf
    exact ⟨ht, hi⟩
  | leaf _ _ _ _ ih => exact ih hf
  | inside _ _ _ _ ih => exact ih (Forest.every_element.mp hf).2.1
  | behind _ _ _ ih => exact ih (Forest.every_element.mp hf).2.2

theorem Replaced.plain_spot (h : Replaced s new through before f g) (hf : f.Plain) :
    s.tag.Plain ∧ (s.tag.void = true → s.children.isNil = true) ∧ s.children.Plain := by
  induction h with
  | here => exact ⟨hf.1, hf.2.1, hf.2.2.1⟩
  | leaf kind _ _ _ ih =>
    cases kind with
    | text => exact ih hf.2.2
    | _ => exact absurd hf id
  | inside _ _ _ _ ih => exact ih hf.2.2.1
  | behind _ _ _ ih => exact ih hf.2.2.2

theorem Replaced.nodup_spot (h : Replaced s new through before f g) (hf : f.marks.Nodup) :
    s.mark ∉ s.children.marks ∧ s.mark ∉ s.next.marks := by
  induction h with
  | here =>
    simp only [Forest.marks, List.nodup_cons, List.mem_append, not_or] at hf
    exact hf.1
  | leaf _ _ _ _ ih => exact ih (List.nodup_cons.mp hf).2
  | inside _ _ _ _ ih => exact ih (List.nodup_append.mp (List.nodup_cons.mp hf).2).1
  | behind _ _ _ ih => exact ih (List.nodup_append.mp (List.nodup_cons.mp hf).2).2.1

theorem plain_append_of_topAll {f g : Forest α} {P : Tag → Bool} (hf : f.Plain)
    (htop : f.topAll P = true) (hg : g.Plain) : (f ++ g).Plain := by
  induction f with
  | nil => exact hg
  | leaf => cases htop
  | element m t children next _ ih =>
    obtain ⟨htag, hhollow, hchildren, hnext⟩ := hf
    exact ⟨htag, hhollow, hchildren, ih hnext (Bool.and_eq_true_iff.mp htop).2⟩

theorem Replaced.startsWithText (h : Replaced s new through before f g) {P : Tag → Bool}
    (htop : new.topAll P = true) (hn : new.isNil = false) :
    g.startsWithText = f.startsWithText := by
  cases h with
  | here =>
    cases new with
    | nil => cases hn
    | leaf => cases htop
    | element => rfl
  | leaf kind => cases kind <;> rfl
  | _ => rfl

theorem Replaced.plain (h : Replaced s new through before f g) {P : Tag → Bool}
    (htop : new.topAll P = true) (hn : new.isNil = false) (hnew : new.Plain) (hf : f.Plain) :
    g.Plain := by
  induction h with
  | here => exact plain_append_of_topAll hnew htop hf.2.2.2
  | leaf kind content _ rest ih =>
    cases kind with
    | text =>
      exact ⟨hf.1, (rest.startsWithText htop hn).trans hf.2.1, ih hf.2.2⟩
    | _ => exact absurd hf id
  | inside _ _ _ rest ih =>
    obtain ⟨htag, hhollow, hchildren, hnext⟩ := hf
    refine ⟨htag, fun hv => absurd (hhollow hv) ?_, ih hchildren, hnext⟩
    rw [rest.isNil_left]
    exact Bool.false_ne_true
  | behind _ _ _ ih =>
    obtain ⟨htag, hhollow, hchildren, hnext⟩ := hf
    exact ⟨htag, hhollow, hchildren, ih hnext⟩

-- ---------------------------------------------------------------------------
-- What the change does to the unfolded forest

/-- An element that hands on what becomes of its content: it is not pending, or of a kind that
keeps its content as it is. A column hands it on only if that has rows as before. -/
def HandsOn (settled : α → Bool) (rows : Prop) (m : α) (t : Tag) : Prop :=
  pendingKind settled m t = none ∨
    ∃ kind, pendingKind settled m t = some kind ∧ kind ≠ .center ∧ kind.keepsContent = true ∧
      ¬(kind = .button ∧ isWide t = true) ∧ (kind = .columns → rows)

section
variable {settled later : α → Bool} {rows : Prop}

theorem pendingKind_congr {m : α} (h : settled m = later m) (t : Tag) :
    pendingKind settled m t = pendingKind later m t := by
  rw [pendingKind, pendingKind, h]

theorem Replaced.unfolded_eq (width : Int) (h : Replaced s new (HandsOn settled rows) before f g)
    (hl : ∀ m, m ≠ s.mark → settled m = later m)
    (hcount : columnCount new = (isColumnTag s.tag).toNat)
    (hrows : rows → (new.descendants.any fun e => isRow (.standard width) e.tag) =
      (isRow (.standard width) s.tag ||
        s.children.descendants.any fun e => isRow (.standard width) e.tag))
    (here : unfolded width later s.before (new ++ s.next) =
      unfolded width settled s.before (.element s.mark s.tag s.children s.next)) :
    unfolded width later before g = unfolded width settled before f := by
  induction h with
  | here => exact here
  | leaf kind content _ _ ih => rw [unfolded, unfolded, ih]
  | @inside f g before m t behind apart outside open_ rest ih =>
    have hbehind : ∀ x ∈ behind.marks, later x = settled x := fun x hx =>
      (hl x fun h => outside (h ▸ hx)).symm
    rw [unfolded_element, unfolded_element, ← pendingKind_congr (hl m apart),
      unfolded_congr hbehind]
    congr 1
    rcases open_ with hm | ⟨kind, hm, hk, -, hw, hr⟩
    · rw [hm, outcome, outcome, ih]
    · rw [hm, outcome_of_component width hk hw, outcome_of_component width hk hw, ih]
      refine resultOf_congr kind t (fun hc => ?_) _ _
      obtain ⟨rest, hf, hg⟩ := rest.any_tags (isRow (.standard width))
      rw [hf, hg, hrows (hr hc)]
  | @behind before f g m t inner apart outside rest ih =>
    have hinner : ∀ x ∈ inner.marks, later x = settled x := fun x hx =>
      (hl x fun h => outside (h ▸ hx)).symm
    rw [unfolded_element, unfolded_element, ← pendingKind_congr (hl m apart), ih, neighboursOf,
      neighboursOf, rest.columnCount_eq hcount]
    refine congrArg (· ++ _) (outcome_congr width _ t inner _ fun x hx => ?_)
    exact unfolded_congr (by rw [hx]; exact hinner) 0

theorem Replaced.expansions_eq (h : Replaced s new (HandsOn settled rows) before f g)
    (hl : ∀ m, m ≠ s.mark → settled m = later m)
    (here : expansions later (new ++ s.next) + 1 =
      expansions settled (.element s.mark s.tag s.children s.next)) :
    expansions later g + 1 = expansions settled f := by
  induction h with
  | here => exact here
  | leaf _ _ _ _ ih => exact ih
  | @inside f g before m t behind apart outside open_ rest ih =>
    have hbehind : ∀ x ∈ behind.marks, later x = settled x := fun x hx =>
      (hl x fun h => outside (h ▸ hx)).symm
    have hm := pendingKind_congr (hl m apart) t
    rcases open_ with hs | ⟨kind, hs, -, hkeeps, -⟩
    · rw [expansions_of_not_pending hs, expansions_of_not_pending (hm ▸ hs),
        expansions_congr hbehind]
      omega
    · rw [expansions_of_pending hs, expansions_of_pending (hm ▸ hs), expansions_congr hbehind,
        if_pos hkeeps, if_pos hkeeps]
      omega
  | @behind before f g m t inner apart outside rest ih =>
    have hinner : ∀ x ∈ inner.marks, later x = settled x := fun x hx =>
      (hl x fun h => outside (h ▸ hx)).symm
    rw [expansions, expansions, ← pendingKind_congr (hl m apart),
      expansions_congr hinner]
    omega

end

end Expansion

end Mailgrid
