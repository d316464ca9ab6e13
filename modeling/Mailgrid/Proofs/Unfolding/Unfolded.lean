import Mailgrid.Proofs.Expansion.Result
import Mailgrid.Unfolding

/-!
# Unfolded forests

What all expansions make of a plain forest, in one pass from the outside to
the inside: `unfolded`. Each component becomes the forest that its frame stands
for around what its own content unfolds to. `expansions` is how many
expansions that takes.

Elements of the centering kind stay, around their content with its outermost
elements and its menu items centered. What is settled stays as it is.
-/

namespace Mailgrid

open Markup (Forest Tag)

/-- The unfolder of an engine with the standard tags and a grid of this width. -/
def Unfolder.standard (width : Int) : Unfolder :=
  ⟨.standard width, Component.all.map fun c => (c.standardTag, c)⟩

namespace Expansion

theorem length_marks_center (rules : Rules) (f : Forest α) :
    (center rules f).marks.length = f.marks.length := by
  simp [center]

/-- The kind of a component that is not settled. -/
def pendingKind (settled : α → Bool) (m : α) (t : Tag) : Option Component :=
  if settled m then none else Component.named? t.name

/-- What a forest unfolds to, with so many columns before it. -/
def unfolded (width : Int) (settled : α → Bool) (before : Nat) : Forest α → Forest Unit
  | .nil => .nil
  | .leaf _ kind content next => .leaf () kind.bare content (unfolded width settled before next)
  | .element m t children next =>
    let behind := unfolded width settled (before + (isColumnTag t).toNat) next
    match pendingKind settled m t with
    | none => .element () t (unfolded width settled 0 children) behind
    | some .center =>
      .element () t (unfolded width settled 0 (center (.standard width) children)) behind
    | some kind =>
      if kind = .button ∧ isWide t = true then
        (wideButton t).forest (.element () (Template.tag "center" [])
          (match t.filled? "href" with
            | some href =>
              .element () (centered (Template.tag "a"
                (carriedTexts t ++ ("href", href) :: target t)))
                (unfolded width settled 0 (children.mapTags centeredItem)) .nil
            | none => unfolded width settled 0 (center (.standard width) children)) .nil) ++ behind
      else
        resultOf width kind t children (neighboursOf before next)
          (unfolded width settled 0 children) ++ behind
termination_by f => f.marks.length
decreasing_by
  all_goals simp only [Forest.marks, List.length_cons, List.length_append, length_marks_center,
    Forest.marks_mapTags]
  all_goals omega

/-- A wide button takes a second expansion, of the center in it. -/
def ownExpansions (kind : Component) (t : Tag) : Nat :=
  if kind = .button ∧ isWide t = true then 2 else 1

/-- How many expansions a forest takes. -/
def expansions (settled : α → Bool) : Forest α → Nat
  | .nil => 0
  | .leaf _ _ _ next => expansions settled next
  | .element m t children next =>
    (match pendingKind settled m t with
      | none => expansions settled children
      | some kind => ownExpansions kind t +
          if kind.keepsContent then expansions settled children else 0) +
      expansions settled next

-- ---------------------------------------------------------------------------
-- One element

/-- What one element unfolds to, if this is what its content unfolds to. -/
def outcome (width : Int) (kind : Option Component) (t : Tag) (children : Forest α)
    (around : Neighbours) (content : Forest α → Forest Unit) : Forest Unit :=
  match kind with
  | none => .element () t (content children) .nil
  | some .center => .element () t (content (center (.standard width) children)) .nil
  | some kind =>
    if kind = .button ∧ isWide t = true then
      (wideButton t).forest (.element () (Template.tag "center" [])
        (match t.filled? "href" with
          | some href =>
            .element () (centered (Template.tag "a" (carriedTexts t ++ ("href", href) :: target t)))
              (content (children.mapTags centeredItem)) .nil
          | none => content (center (.standard width) children)) .nil)
    else resultOf width kind t children around (content children)

theorem named_of_pendingKind {settled : α → Bool} {m : α} {t : Tag} {kind : Component}
    (h : pendingKind settled m t = some kind) : Component.named? t.name = some kind := by
  unfold pendingKind at h
  split at h
  · cases h
  · exact h

theorem expansions_of_pending {settled : α → Bool} {m : α} {t : Tag} {kind : Component}
    (h : pendingKind settled m t = some kind) (children next : Forest α) :
    expansions settled (.element m t children next) =
      ownExpansions kind t + (if kind.keepsContent then expansions settled children else 0) +
        expansions settled next := by
  rw [expansions, h]

theorem expansions_of_not_pending {settled : α → Bool} {m : α} {t : Tag}
    (h : pendingKind settled m t = none) (children next : Forest α) :
    expansions settled (.element m t children next) =
      expansions settled children + expansions settled next := by
  rw [expansions, h]

theorem unfolded_element (width : Int) (settled : α → Bool) (before : Nat) (m : α) (t : Tag)
    (children next : Forest α) :
    unfolded width settled before (.element m t children next) =
      outcome width (pendingKind settled m t) t children (neighboursOf before next)
          (unfolded width settled 0) ++
        unfolded width settled (before + (isColumnTag t).toNat) next := by
  rw [unfolded]
  unfold outcome
  cases pendingKind settled m t with
  | none => rfl
  | some kind =>
    cases kind with
    | center => rfl
    | _ =>
      simp only
      split <;> rfl

theorem outcome_of_component (width : Int) {kind : Component} {t : Tag} (hk : kind ≠ .center)
    (hw : ¬(kind = .button ∧ isWide t = true)) (children : Forest α) (around : Neighbours)
    (content : Forest α → Forest Unit) :
    outcome width (some kind) t children around content =
      resultOf width kind t children around (content children) := by
  cases kind with
  | center => exact absurd rfl hk
  | _ =>
    unfold outcome
    dsimp only
    exact if_neg hw

theorem outcome_of_wide (width : Int) {t : Tag} (hw : isWide t = true) (children : Forest α)
    (around : Neighbours) (content : Forest α → Forest Unit) :
    outcome width (some .button) t children around content =
      (wideButton t).forest (.element () (Template.tag "center" [])
        (match t.filled? "href" with
          | some href =>
            .element () (centered (Template.tag "a" (carriedTexts t ++ ("href", href) :: target t)))
              (content (children.mapTags centeredItem)) .nil
          | none => content (center (.standard width) children)) .nil) := by
  unfold outcome
  dsimp only
  exact if_pos ⟨rfl, hw⟩

/-- Only centering and widening look into what an element holds, and they leave its marks. -/
theorem outcome_congr {content other : Forest α → Forest Unit} (width : Int)
    (kind : Option Component) (t : Tag) (children : Forest α) (around : Neighbours)
    (h : ∀ f : Forest α, f.marks = children.marks → content f = other f) :
    outcome width kind t children around content = outcome width kind t children around other := by
  have hself := h children rfl
  have hcenter := h (center (.standard width) children) (by simp [center])
  have hitems := h (children.mapTags centeredItem) (by simp)
  unfold outcome
  rw [hself, hcenter, hitems]

/-- An induction for what looks into an element with its content changed in place. -/
theorem sized_induction {α : Type} {P : Forest α → Prop} (nil : P .nil)
    (leaf : ∀ m kind content next, P next → P (.leaf m kind content next))
    (element : ∀ m t children next,
      (∀ f : Forest α, f.marks.length = children.marks.length → P f) → P next →
        P (.element m t children next)) (f : Forest α) : P f := by
  have h (n : Nat) : ∀ f : Forest α, f.marks.length < n → P f := by
    induction n with
    | zero => exact fun _ hf => absurd hf (Nat.not_lt_zero _)
    | succ n ih =>
      intro f hf
      cases f with
      | nil => exact nil
      | leaf m kind content next =>
        exact leaf m kind content next (ih next (by simpa [Forest.marks] using hf))
      | element m t children next =>
        simp only [Forest.marks, List.length_cons, List.length_append] at hf
        exact element m t children next (fun f hc => ih f (by omega)) (ih next (by omega))
  exact h _ f (Nat.lt_succ_self _)

-- ---------------------------------------------------------------------------
-- What is settled, and marks

section
variable {α : Type} {width : Int}

theorem unfolded_congr {settled other : α → Bool} {f : Forest α}
    (h : ∀ m ∈ f.marks, settled m = other m) (before : Nat) :
    unfolded width settled before f = unfolded width other before f := by
  induction f using sized_induction generalizing before with
  | nil => rw [unfolded, unfolded]
  | leaf m kind content next ih =>
    rw [unfolded, unfolded, ih fun x hx => h x (List.mem_cons_of_mem _ hx)]
  | element m t children next ihc ih =>
    simp only [Forest.marks, List.forall_mem_cons, List.forall_mem_append] at h
    have hm : pendingKind settled m t = pendingKind other m t := by
      rw [pendingKind, pendingKind, h.1]
    rw [unfolded_element, unfolded_element, hm, ih h.2.2]
    exact congrArg (· ++ _) (outcome_congr width _ t children _ fun f hf =>
      ihc f (congrArg List.length hf) (hf ▸ h.2.1) 0)

theorem expansions_congr {settled other : α → Bool} {f : Forest α}
    (h : ∀ m ∈ f.marks, settled m = other m) : expansions settled f = expansions other f := by
  induction f with
  | nil => rfl
  | leaf m kind content next ih => exact ih fun x hx => h x (List.mem_cons_of_mem _ hx)
  | element m t children next ihc ih =>
    simp only [Forest.marks, List.forall_mem_cons, List.forall_mem_append] at h
    rw [expansions, expansions, pendingKind, pendingKind, h.1, ihc h.2.1, ih h.2.2]

theorem columnCount_element (m : α) (t : Tag) (children next : Forest α) :
    columnCount (.element m t children next) = (isColumnTag t).toNat + columnCount next := by
  simp only [columnCount, Forest.elements, List.countP_cons]
  cases isColumnTag t <;> simp [Nat.add_comm]

theorem columnCount_bare (f : Forest α) : columnCount f.bare = columnCount f := by
  induction f with
  | nil => rfl
  | leaf m kind content next ih => exact ih
  | element m t children next _ ih =>
    rw [Forest.bare, columnCount_element, columnCount_element, ih]

theorem any_tags_bare (P : Tag → Bool) (f : Forest α) :
    (f.bare.descendants.any fun e => P e.tag) = f.descendants.any fun e => P e.tag := by
  induction f with
  | nil => rfl
  | leaf m kind content next ih => exact ih
  | element m t children next ihc ih =>
    simp only [Forest.bare, Forest.descendants, List.any_cons, List.any_append, ihc, ih]

theorem resultOf_congr {β : Type} (kind : Component) (t : Tag) {f : Forest α} {g : Forest β}
    (h : kind = .columns → (f.descendants.any fun e => isRow (.standard width) e.tag) =
      g.descendants.any fun e => isRow (.standard width) e.tag)
    (around : Neighbours) (inner : Forest Unit) :
    resultOf width kind t f around inner = resultOf width kind t g around inner := by
  cases kind with
  | columns => simp only [resultOf, frame, hasExpander, h rfl]
  | _ => rfl

theorem outcome_bare (kind : Option Component) (t : Tag) (children : Forest α)
    (around : Neighbours) (content : Forest Unit → Forest Unit) :
    outcome width kind t children.bare around content =
      outcome width kind t children around fun f => content f.bare := by
  have hresult (kind : Component) :
      resultOf width kind t children.bare around (content children.bare) =
        resultOf width kind t children around (content children.bare) :=
    resultOf_congr kind t (fun _ => any_tags_bare _ children) around _
  unfold outcome
  simp only [bare_center, Forest.bare_mapTags, hresult]

theorem unfolded_bare (f : Forest α) (before : Nat) :
    unfolded width (fun _ => false) before f.bare = unfolded width (fun _ => false) before f := by
  induction f using sized_induction generalizing before with
  | nil => rw [Forest.bare, unfolded, unfolded]
  | leaf m kind content next ih =>
    rw [Forest.bare, unfolded, unfolded, ih]
    cases kind <;> rfl
  | element m t children next ihc ih =>
    have hn : neighboursOf before next.bare = neighboursOf before next := by
      rw [neighboursOf, neighboursOf, columnCount_bare]
    rw [Forest.bare, unfolded_element, unfolded_element, ih, hn, outcome_bare]
    exact congrArg (· ++ _) (outcome_congr width _ t children _ fun f hf =>
      ihc f (congrArg List.length hf) 0)

theorem expansions_bare (f : Forest α) :
    expansions (fun _ => false) f.bare = expansions (fun _ => false) f := by
  induction f with
  | nil => rfl
  | leaf m kind content next ih => exact ih
  | element m t children next ihc ih =>
    rw [Forest.bare, expansions, expansions, ihc, ih]
    rfl

end

-- ---------------------------------------------------------------------------
-- Sequences and changed tags

section
variable {α : Type} {settled : α → Bool} {f : Forest α}

/-- A component is seen by its siblings, so forests with components outside are not independent. -/
theorem unfolded_append (width : Int)
    (h : f.topAll (fun t => (Component.named? t.name).isNone) = true) (g : Forest α)
    (before : Nat) : unfolded width settled before (f ++ g) =
      unfolded width settled before f ++ unfolded width settled (before + columnCount f) g := by
  induction f generalizing before with
  | nil => rw [unfolded]; rfl
  | leaf => cases h
  | element m t children next _ ih =>
    simp only [Forest.topAll, Bool.and_eq_true, Option.isNone_iff_eq_none] at h
    have hm : pendingKind settled m t = none := by simp [pendingKind, h.1]
    rw [Forest.element_append, unfolded_element, unfolded_element, hm, ih h.2,
      columnCount_element, Forest.append_assoc, Nat.add_assoc]
    rfl

theorem expansions_append (settled : α → Bool) (f g : Forest α) :
    expansions settled (f ++ g) = expansions settled f + expansions settled g := by
  induction f with
  | nil => exact (Nat.zero_add _).symm
  | leaf m kind content next ih => exact ih
  | element m t children next _ ih =>
    rw [Forest.element_append, expansions, expansions, ih, Nat.add_assoc]

theorem expansions_mapTags {change : Tag → Tag}
    (hc : ∀ t, t.Plain → (change t).name = t.name ∧ isWide (change t) = isWide t)
    (settled : α → Bool) (h : f.Plain) :
    expansions settled (f.mapTags change) = expansions settled f := by
  induction f with
  | nil => rfl
  | leaf m kind content next ih =>
    cases kind with
    | text => exact ih h.2.2
    | _ => exact absurd h id
  | element m t children next ihc ih =>
    obtain ⟨htag, -, hchildren, hnext⟩ := h
    obtain ⟨hname, hwide⟩ := hc t htag
    rw [Forest.mapTags, expansions, expansions, ihc hchildren, ih hnext, pendingKind, pendingKind,
      hname]
    simp only [ownExpansions, hwide]

theorem expansions_mapTop {change : Tag → Tag}
    (hc : ∀ t, t.Plain → (change t).name = t.name ∧ isWide (change t) = isWide t)
    (settled : α → Bool) (h : f.Plain) :
    expansions settled (f.mapTop change) = expansions settled f := by
  induction f with
  | nil => rfl
  | leaf m kind content next ih =>
    cases kind with
    | text => exact ih h.2.2
    | _ => exact absurd h id
  | element m t children next _ ih =>
    obtain ⟨htag, -, -, hnext⟩ := h
    obtain ⟨hname, hwide⟩ := hc t htag
    rw [Forest.mapTop, expansions, expansions, ih hnext, pendingKind, pendingKind, hname]
    simp only [ownExpansions, hwide]

theorem expansions_center (width : Int) (settled : α → Bool) (h : f.Plain) :
    expansions settled (center (.standard width) f) = expansions settled f := by
  rw [center_standard, expansions_mapTags _ settled (plain_mapTop_centered h),
    expansions_mapTop _ settled h]
  · intro t ht
    refine ⟨name_centered t, ?_⟩
    rw [isWide, isWide, hasClass_centered ht (by decide), hasClass_centered ht (by decide)]
  · intro t ht
    refine ⟨name_centeredItem t, ?_⟩
    rw [isWide, isWide, hasClass_centeredItem ht (by decide), hasClass_centeredItem ht (by decide)]

theorem unfolded_of_not_pending (width : Int)
    (h : ∀ e ∈ f.descendants, pendingKind settled e.mark e.tag = none) (before : Nat) :
    unfolded width settled before f = f.bare ∧ expansions settled f = 0 := by
  induction f generalizing before with
  | nil => exact ⟨by rw [unfolded]; rfl, rfl⟩
  | leaf m kind content next ih =>
    obtain ⟨hu, he⟩ := ih h before
    exact ⟨by rw [unfolded, hu]; rfl, he⟩
  | element m t children next ihc ih =>
    simp only [Forest.descendants, List.forall_mem_cons, List.forall_mem_append] at h
    obtain ⟨hm, hchildren, hnext⟩ := h
    obtain ⟨huc, hec⟩ := ihc hchildren 0
    obtain ⟨hun, hen⟩ := ih hnext (before + (isColumnTag t).toNat)
    refine ⟨?_, by rw [expansions, hm, hec, hen]⟩
    rw [unfolded_element, hm, hun, outcome, huc]
    rfl

end

end Expansion

end Mailgrid
