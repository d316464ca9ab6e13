import Mailgrid.Proofs.Document.Marks
import Mailgrid.Proofs.Unfolding.Replaced
import Mailgrid.Proofs.Unfolding.Result
import Mailgrid.Proofs.Unfolding.Step

/-!
# One expansion

In a regular draft every component can be expanded, whichever is chosen, and
the draft stays regular. What the document unfolds to stays the same, with one
expansion less to go, as long as the elements around the component hand on
what becomes of their content.
-/

namespace Mailgrid

open Markup (Element Forest Node Tag)

/-- A plain document in the standard format in which only columns and cells count as columns. -/
structure Draft.Regular (d : Draft) : Prop where
  marked : d.document.Marked
  format : d.document.format = Format.standard
  plain : d.document.content.Plain
  items : d.document.content.Every fun t _ => t.name = "item" → t.hasClass "columns" = false
  settled : ∀ m ∈ d.settled, m < d.document.next

/-- Is an element with this mark settled? -/
def Draft.isSettled (d : Draft) (m : Nat) : Bool :=
  d.settled.contains m

namespace Expansion

-- ---------------------------------------------------------------------------
-- What stands in the place of a component

section
variable {width : Int} {kind : Component} {t : Tag} {children new : Forest α} {around : Neighbours}

theorem topAll_bare (P : Tag → Bool) (f : Forest α) : f.bare.topAll P = f.topAll P := by
  induction f with
  | nil => rfl
  | leaf => rfl
  | element m t children next _ ih => rw [Forest.bare, Forest.topAll, Forest.topAll, ih]

theorem outside_of_bare (hb : new.bare = resultOf width kind t children around children.bare)
    (hk : kind ≠ .center) (ht : t.Plain) (hn : Component.named? t.name = some kind)
    (hitem : t.name = "item" → t.hasClass "columns" = false) (hc : children.Plain) :
    new.isNil = false ∧ new.topAll (fun s => (Component.named? s.name).isNone) = true ∧
      columnCount new = (isColumnTag t).toNat ∧ new.Plain := by
  obtain ⟨hnil, htop⟩ := outside_resultOf width hk t children around children.bare
  refine ⟨?_, ?_, ?_, ?_⟩
  · rw [← Forest.isNil_bare, hb, hnil]
  · rw [← topAll_bare, hb, htop]
  · rw [← columnCount_bare, hb]
    exact columnCount_resultOf width hk ht (Component.named?_eq_some.mp hn) hitem children around _
  · rw [← Forest.plain_bare, hb]
    exact plain_resultOf width kind ht children around (Forest.plain_bare.mpr hc)

theorem forall_of_bare (hb : new.bare = resultOf width kind t children around children.bare)
    {Q : Tag → Forest Unit → Prop} (hfinal : ∀ t f, Component.named? t.name = none → Q t f)
    (hwide : kind = .button ∧ isWide t = true → ∀ t f, t.name = "center" → Q t f)
    (hc : ∀ e ∈ children.descendants, Q e.tag e.children.bare) :
    ∀ e ∈ new.descendants, Q e.tag e.children.bare := by
  rw [← Forest.forall_bare, hb]
  exact forall_resultOf width (fun e => hfinal e.tag e.children)
    (fun hw e => hwide hw e.tag e.children) children around (Forest.forall_bare.mpr hc)

theorem every_of_bare (hb : new.bare = resultOf width kind t children around children.bare)
    {P : Tag → Bool → Prop} (hfinal : ∀ s b, Component.named? s.name = none → P s b)
    (hwide : kind = .button ∧ isWide t = true → ∀ s b, s.name = "center" → P s b)
    (hc : children.Every P) : new.Every P := by
  rw [← Forest.every_bare, hb]
  exact forall_resultOf width (fun e => hfinal e.tag _) (fun hw e => hwide hw e.tag _) children
    around (Forest.every_bare.mpr hc)

theorem unfolded_of_bare (hb : new.bare = resultOf width kind t children around children.bare)
    (hk : kind ≠ .center) (ht : t.Plain) (before : Nat) :
    unfolded width (fun _ => false) before new =
      outcome width (some kind) t children around (unfolded width (fun _ => false) 0) := by
  rw [← unfolded_bare, hb]
  by_cases hw : kind = .button ∧ isWide t = true
  · obtain ⟨rfl, hw⟩ := hw
    exact unfolded_resultOf_wide ht hw children around before
  · rw [unfolded_resultOf ht hw, unfolded_bare, outcome_of_component width hk hw]

theorem expansions_of_bare (hb : new.bare = resultOf width kind t children around children.bare) :
    expansions (fun _ => false) new + 1 =
      ownExpansions kind t +
        if kind.keepsContent then expansions (fun _ => false) children else 0 := by
  rw [← expansions_bare, hb]
  by_cases hw : kind = .button ∧ isWide t = true
  · obtain ⟨rfl, hw⟩ := hw
    rw [expansions_resultOf_wide hw, expansions_bare, ownExpansions, if_pos ⟨rfl, hw⟩]
    simp only [Component.keepsContent, if_true]
    omega
  · rw [expansions_resultOf hw, expansions_bare, ownExpansions, if_neg hw, Nat.add_comm]

end

-- ---------------------------------------------------------------------------
-- Expanding

theorem neighbours_standard (width : Int) (before : List (Element α)) (next : Forest α) :
    neighbours (.standard width) before next.elements =
      neighboursOf (before.countP fun e => isColumnTag e.tag) next := rfl

/-- A plain component can be expanded, and what comes in its place is known but for marks. -/
theorem expand_component (width : Int) {d : Draft} {p : Pending} {t : Tag}
    {children : Forest Nat} (hf : d.document.format = Format.standard)
    (hnode : p.place.node = .element t children)
    (hkind : Component.named? t.name = some p.kind) (hk : p.kind ≠ .center) (ht : t.Plain)
    (hc : children.Plain) :
    ∃ new : Forest Unit,
      (Unfolder.standard width).expand d p = .ok ⟨⟨d.document.format, d.document.spelling,
        d.document.content.replace (· == p.place.mark) (new.number d.document.next).1,
        (new.number d.document.next).2⟩, d.settled⟩ ∧
      new.bare = resultOf width p.kind t children
        (neighbours (.standard width) p.place.before p.place.after) children.bare := by
  obtain ⟨new, hr, hb⟩ := read_resultOf width p.kind ht hc
    (neighbours (.standard width) p.place.before p.place.after) (some t.name)
  refine ⟨new, ?_, hb⟩
  rw [← hf] at hr
  refine Unfolder.expand_of_read hnode (Component.isEmpty_of_named? hkind) hk ?_ hr
  rw [hf]
  exact template_eq_fill width p.kind (carried_plain ht) children p.place.before p.place.after

theorem unfolded_here {width : Int} {settled : α → Bool} {s : Spot α} {kind : Component}
    {new : Forest α} (hkind : pendingKind settled s.mark s.tag = some kind) (hk : kind ≠ .center)
    (ht : s.tag.Plain) (hb : new.bare = resultOf width kind s.tag s.children
      (neighboursOf s.before s.next) s.children.bare)
    (hcount : columnCount new = (isColumnTag s.tag).toNat)
    (htop : new.topAll (fun t => (Component.named? t.name).isNone) = true)
    (hnew : ∀ m ∈ new.marks, settled m = false)
    (hchildren : ∀ m ∈ s.children.marks, settled m = false) :
    unfolded width settled s.before (new ++ s.next) =
        unfolded width settled s.before (.element s.mark s.tag s.children s.next) ∧
      expansions settled (new ++ s.next) + 1 =
        expansions settled (.element s.mark s.tag s.children s.next) := by
  refine ⟨?_, ?_⟩
  · rw [unfolded_append width htop, unfolded_element, hcount, unfolded_congr hnew,
      unfolded_of_bare hb hk ht, hkind]
    refine congrArg (· ++ _) (outcome_congr width _ s.tag s.children _ fun f hf => ?_)
    exact (unfolded_congr (hf ▸ hchildren) 0).symm
  · rw [expansions_append, expansions_of_pending hkind, expansions_congr hnew,
      expansions_congr hchildren, ← expansions_of_bare hb]
    omega

end Expansion

open Expansion

namespace Draft.Regular

variable {width : Int} {d : Draft} {p : Pending} {t : Tag} {children : Forest Nat}
  {wanted : Nat → Node Nat → Bool} {look : Nat → Tag → Bool}

/-- What expanding a component does to a draft: the component is replaced by what it becomes. -/
structure Expanded (width : Int) (kind : Component) (through : Nat → Tag → Prop) (d : Draft)
    (s : Spot Nat) (new : Forest Nat) (e : Draft) : Prop where
  regular : e.Regular
  settled : e.settled = d.settled
  replaced : Replaced s new through 0 d.document.content e.document.content
  bare : new.bare =
    resultOf width kind s.tag s.children (neighboursOf s.before s.next) s.children.bare
  unsettled : ∀ m ∈ new.marks, d.isSettled m = false

theorem exists_expanded (width : Int) (hd : d.Regular)
    (hl : ∀ m t children, wanted m (.element t children) = look m t)
    (hplace : d.document.content.place? wanted = some p.place)
    (hnode : p.place.node = .element t children)
    (hkind : Component.named? t.name = some p.kind) (hk : p.kind ≠ .center) :
    ∃ s new e, s.mark = p.place.mark ∧ s.tag = t ∧ s.children = children ∧
      (Unfolder.standard width).expand d p = .ok e ∧
      Expanded width p.kind (fun m t => look m t = false) d s new e := by
  obtain ⟨hmarked, hformat, hplain, hitems, hsettled⟩ := hd
  obtain ⟨next, hafter, hreplaced⟩ := replaced_of_placeAfter? hl hplace hmarked.nodup hnode
  obtain ⟨g, hg⟩ := hreplaced .nil
  obtain ⟨ht, -, hc⟩ := hg.plain_spot hplain
  obtain ⟨hitem, -⟩ := hg.every_spot hitems
  obtain ⟨new, hexpand, hb⟩ := Expansion.expand_component width hformat hnode hkind hk ht hc
  rw [hafter, neighbours_standard] at hb
  obtain ⟨g, hg⟩ := hreplaced (new.number d.document.next).1
  rw [hg.eq_replace] at hexpand
  have hbare : (new.number d.document.next).1.bare = _ := (Forest.bare_number new _).trans hb
  have hfresh (m : Nat) (hm : m ∈ (new.number d.document.next).1.marks) :=
    Forest.mem_marks_number hm
  have hnext : d.document.next ≤ (new.number d.document.next).2 := by
    rw [(new.marks_number d.document.next).2]
    exact Nat.le_add_right _ _
  obtain ⟨hnil, htop, -, hnew⟩ := outside_of_bare hbare hk ht hkind hitem hc
  refine ⟨_, _, _, rfl, rfl, rfl, hexpand, ⟨?_, hformat, ?_, ?_, ?_⟩, rfl, hg, hbare, ?_⟩
  · obtain ⟨front, back, hf, hb⟩ := hg.marks_eq
    exact hmarked.of_replaced hf rfl hb
  · exact hg.plain htop hnil hnew hplain
  · refine hg.every hnil hitems (every_of_bare hbare (fun s b hs h => ?_) (fun _ s b hs h => ?_)
      (hg.every_spot hitems).2)
    · rw [h] at hs
      cases hs
    · rw [h] at hs
      exact absurd hs (by decide)
  · exact fun m hm => Nat.lt_of_lt_of_le (hsettled m hm) hnext
  · intro m hm
    by_contra hs
    have hs : m ∈ d.settled := by simpa [Draft.isSettled] using hs
    exact absurd (hfresh m hm).1 (Nat.not_le_of_lt (hsettled m hs))

variable {s : Spot Nat} {new : Forest Nat} {e : Draft} {kind : Component} {rows : Prop}

/-- If the elements around a component hand on what becomes of their content, then expanding it
keeps what the document unfolds to, with one expansion less to go. -/
theorem Expanded.unfolded_eq (he : Expanded width kind (HandsOn d.isSettled rows) d s new e)
    (hd : d.Regular) (hkind : pendingKind d.isSettled s.mark s.tag = some kind)
    (hk : kind ≠ .center) (hunsettled : ∀ m ∈ s.children.marks, d.isSettled m = false)
    (hrows : rows → (new.descendants.any fun e => isRow (.standard width) e.tag) =
      (isRow (.standard width) s.tag ||
        s.children.descendants.any fun e => isRow (.standard width) e.tag)) :
    unfolded width e.isSettled 0 e.document.content =
        unfolded width d.isSettled 0 d.document.content ∧
      expansions e.isSettled e.document.content + 1 =
        expansions d.isSettled d.document.content := by
  obtain ⟨-, hsettled, hg, hbare, hfresh⟩ := he
  obtain ⟨ht, -, hc⟩ := hg.plain_spot hd.plain
  obtain ⟨hitem, -⟩ := hg.every_spot hd.items
  obtain ⟨-, htop, hcount, -⟩ := outside_of_bare hbare hk ht
    (named_of_pendingKind hkind) hitem hc
  obtain ⟨hu, hx⟩ := unfolded_here hkind hk ht hbare hcount htop hfresh hunsettled
  have hsame : e.isSettled = d.isSettled := by
    unfold Draft.isSettled
    rw [hsettled]
  rw [hsame]
  exact ⟨hg.unfolded_eq width (fun _ _ => rfl) hcount hrows hu,
    hg.expansions_eq (fun _ _ => rfl) hx⟩

end Draft.Regular

end Mailgrid
