import Mailgrid.Proofs.Unfolding.Unfolded

/-!
# Unfolding results

What a component becomes around its content unfolds to the same around what
that content unfolds to. Only what becomes of a wide button holds a component
of its own, the center around its content.
-/

namespace Mailgrid

open Markup (Forest Tag)

namespace Expansion

section
variable {width : Int} {t : Template}

theorem unfolded_forest (h : t.Plain) (hf : t.isFinal = true) {before : Nat}
    (hb : t.hasPlace = true → before = 0) (f : Forest Unit) :
    unfolded width (fun _ => false) before (t.forest f) =
      t.forest (unfolded width (fun _ => false) 0 f) := by
  induction t generalizing before with
  | nil => rw [Template.forest, Template.forest, unfolded]
  | piece markup next ih =>
    obtain ⟨hpiece, hnext⟩ := h
    rw [Template.forest, Template.forest, Template.pieceForest, Template.pieceForest]
    by_cases hm : markup = ""
    · rw [if_pos hm] at hpiece
      subst hpiece
      rw [hb (by simp [Template.hasPlace, hm]), if_pos hm, if_pos hm, Template.forest,
        Template.forest, Forest.append_nil, Forest.append_nil]
    · rw [if_neg hm] at hpiece
      obtain ⟨-, -, hplace⟩ := hpiece
      rw [if_neg hm, if_neg hm, Forest.leaf_append, Forest.leaf_append, Forest.nil_append,
        Forest.nil_append, unfolded, ih hnext hf fun h => absurd h (by simp [hplace])]
      rfl
  | element name attributes content next ihc ih =>
    obtain ⟨-, -, hplace, hcontent, hnext⟩ := h
    simp only [Template.isFinal, Template.names, List.all_cons, List.all_append, Bool.and_eq_true,
      Option.isNone_iff_eq_none] at hf
    have hm : pendingKind (fun _ => false) () (Template.tag name attributes) = none := hf.1
    rw [Template.forest, Template.forest, unfolded_element, hm,
      ih hnext hf.2.2 fun h => absurd h (by simp [hplace]), outcome,
      ihc hcontent hf.2.1 fun _ => rfl]
    rfl

theorem expansions_forest (hf : t.isFinal = true) (f : Forest Unit) :
    expansions (fun _ => false) (t.forest f) = t.places * expansions (fun _ => false) f := by
  induction t with
  | nil => rw [Template.forest, Template.places, Nat.zero_mul]; rfl
  | piece markup next ih =>
    rw [Template.forest, Template.pieceForest, Template.places, expansions_append, ih hf,
      Nat.add_mul]
    congr 1
    split
    · rw [Nat.one_mul]
    · rw [Nat.zero_mul]; rfl
  | element name attributes content next ihc ih =>
    simp only [Template.isFinal, Template.names, List.all_cons, List.all_append, Bool.and_eq_true,
      Option.isNone_iff_eq_none] at hf
    have hm : pendingKind (fun _ => false) () (Template.tag name attributes) = none := hf.1
    rw [Template.forest, expansions, hm, ihc hf.2.1, ih hf.2.2, Template.places, Nat.add_mul]

end

-- ---------------------------------------------------------------------------
-- Results

section
variable {width : Int} {t : Tag}

theorem unfolded_resultOf {kind : Component} (ht : t.Plain)
    (hw : ¬(kind = .button ∧ isWide t = true)) (children : Forest α) (around : Neighbours)
    (before : Nat) (f : Forest Unit) :
    unfolded width (fun _ => false) before (resultOf width kind t children around f) =
      resultOf width kind t children around (unfolded width (fun _ => false) 0 f) := by
  by_cases hk : kind = .marker
  · subst hk
    have hm : ∀ e ∈ markerForest.descendants, pendingKind (fun _ => false) e.mark e.tag = none := by
      simp only [markerForest, Forest.descendants, List.append_nil, List.forall_mem_cons]
      exact ⟨rfl, rfl, rfl, List.forall_mem_nil _⟩
    exact (unfolded_of_not_pending width hm before).1
  · obtain ⟨hfinal, hplace, -⟩ := final_frame width hk hw children around
    rw [resultOf_of_ne width hk, resultOf_of_ne width hk]
    exact unfolded_forest (plain_frame width ht children around hk) hfinal (by simp [hplace]) f

theorem expansions_resultOf {kind : Component} (hw : ¬(kind = .button ∧ isWide t = true))
    (children : Forest α) (around : Neighbours) (f : Forest Unit) :
    expansions (fun _ => false) (resultOf width kind t children around f) =
      if kind.keepsContent then expansions (fun _ => false) f else 0 := by
  by_cases hk : kind = .marker
  · subst hk
    rfl
  · obtain ⟨hfinal, -, hplaces⟩ := final_frame width hk hw children around
    rw [resultOf_of_ne width hk, expansions_forest hfinal, hplaces]
    split
    · rw [Nat.one_mul]
    · rw [Nat.zero_mul]

-- ---------------------------------------------------------------------------
-- Wide buttons

theorem forest_inside (f : Forest Unit) : inside.forest f = f :=
  Forest.append_nil f

/-- What is in the center of a wide button. -/
def linkedContent (t : Tag) (f : Forest Unit) : Forest Unit :=
  (linked (if (t.filled? "href").isSome then carriedTexts t else []) t inside).forest f

theorem resultOf_wide (hw : isWide t = true) (children : Forest α) (around : Neighbours)
    (f : Forest Unit) : resultOf width .button t children around f =
      (wideButton t).forest (.element () (Template.tag "center" []) (linkedContent t f) .nil) := by
  have hwide : (t.hasClass "expand" || t.hasClass "expanded") = true := hw
  rw [resultOf_of_ne width (by decide), frame, button]
  simp only [hwide, if_true]
  rfl

theorem plain_wideButton (ht : t.Plain) : (wideButton t).Plain := by
  have hs := supplies_plain ht
  refine Template.plain_iff.mpr (framed_table (hs.kindClass (by decide)) ?_)
  exact ⟨by decide, nofun, rfl, framed_table nofun (framed_cell framed_inside),
    hs.nextLine (by decide)⟩

/-- A link that was generated has no class, so it is no menu item. -/
theorem center_linkedContent (ht : t.Plain) (f : Forest Unit) :
    center (.standard width) (linkedContent t f) =
      match t.filled? "href" with
      | some href => .element () (centered (Template.tag "a"
          (carriedTexts t ++ ("href", href) :: target t))) (f.mapTags centeredItem) .nil
      | none => center (.standard width) f := by
  unfold linkedContent linked
  cases hv : t.filled? "href" with
  | none => exact congrArg (center _) (forest_inside f)
  | some href =>
    have hlink : (Template.tag "a" (carriedTexts t ++ ("href", href) :: target t)).Plain :=
      Template.plain_tag (by decide) (List.forall_mem_append.mpr ⟨plain_carriedTexts ht,
        List.forall_mem_cons.mpr ⟨(supplies_plain ht).pair (by decide) (ht.filled hv),
          (supplies_plain ht).target⟩⟩)
    have hclass : (Template.tag "a"
        (carriedTexts t ++ ("href", href) :: target t)).hasClass "menu-item" = false := by
      rw [Tag.hasClass, classes_tag_of_ne "a" ?_]
      · rfl
      · simp only [List.forall_mem_append, List.forall_mem_cons]
        refine ⟨ne_class_of_mem_carriedTexts, by decide, fun x hx => ?_⟩
        unfold target at hx
        split at hx
        · obtain rfl := List.mem_singleton.mp hx
          exact (by decide : "target" ≠ "class")
        · cases hx
    have hitem : isItem (.standard 0) (centered (Template.tag "a"
        (carriedTexts t ++ ("href", href) :: target t))) = false := by
      rw [isItem, hasClass_centered hlink (by decide), hclass, name_centered]
      rfl
    simp only [Template.node, Template.forest, forest_inside]
    exact congrArg (Forest.element () · (f.mapTags centeredItem) .nil)
      (if_neg (Bool.not_eq_true _ ▸ hitem))

theorem unfolded_resultOf_wide (ht : t.Plain) (hw : isWide t = true) (children : Forest α)
    (around : Neighbours) (before : Nat) :
    unfolded width (fun _ => false) before (resultOf width .button t children around children.bare) =
      outcome width (some .button) t children around (unfolded width (fun _ => false) 0) := by
  have hcenter : pendingKind (fun _ => false) () (Template.tag "center" []) = some .center := rfl
  rw [resultOf_wide hw, unfolded_forest (plain_wideButton ht) rfl (fun h => nomatch h),
    unfolded_element, hcenter, unfolded, outcome_of_wide width hw, outcome,
    center_linkedContent ht, Forest.append_nil]
  cases t.filled? "href" with
  | some href =>
    have hlink : pendingKind (fun _ => false) () (centered (Template.tag "a"
        (carriedTexts t ++ ("href", href) :: target t))) = none := by
      rw [pendingKind, name_centered]
      rfl
    dsimp only
    rw [unfolded_element, hlink, outcome, unfolded, ← Forest.bare_mapTags, unfolded_bare]
    rfl
  | none => simp only [← bare_center, unfolded_bare]

theorem expansions_resultOf_wide (hw : isWide t = true) (children : Forest α)
    (around : Neighbours) (f : Forest Unit) :
    expansions (fun _ => false) (resultOf width .button t children around f) =
      1 + expansions (fun _ => false) f := by
  have hlinked : (linked (if (t.filled? "href").isSome then carriedTexts t else []) t
      inside).isFinal = true ∧ (linked (if (t.filled? "href").isSome then carriedTexts t else []) t
      inside).places = 1 := by
    unfold linked
    cases t.filled? "href" <;> exact ⟨rfl, rfl⟩
  have hcenter : pendingKind (fun _ => false) () (Template.tag "center" []) = some .center := rfl
  rw [resultOf_wide hw, expansions_forest rfl, expansions, hcenter, linkedContent,
    expansions_forest hlinked.1, hlinked.2]
  change 1 * (1 + 1 * expansions (fun _ => false) f + 0) = _
  rw [Nat.one_mul, Nat.one_mul, Nat.add_zero]

end

end Expansion

end Mailgrid
