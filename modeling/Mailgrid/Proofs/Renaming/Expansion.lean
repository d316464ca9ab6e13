import Mailgrid.Proofs.Markup.Clear
import Mailgrid.Proofs.Markup.Retagged
import Mailgrid.Proofs.Renaming.Tag

/-!
# Expansions of renamed components

A renamed component becomes what it became before, with the components inside
it renamed.
-/

namespace Mailgrid

open Component (CanBe generatedNames)
open Markup (Element Forest Retagged Tag bareStyle)

variable {kind : Component} {name : String} {width : Int} {t : Tag}

namespace Expansion

-- ---------------------------------------------------------------------------
-- Centering

theorem renamable_of (h : t.Renamable kind name) {s : Tag} (hs : s.Plain) (hname : s.name = t.name)
    (hclass : ∀ other, other ≠ "float-center" → s.hasClass other = t.hasClass other) :
    s.Renamable kind name := by
  refine ⟨hs, hname ▸ h.fresh, fun hk hb => ?_⟩
  have hnarrow := h.narrow hk (hname ▸ hb)
  rw [isWide] at hnarrow ⊢
  rwa [hclass "expand" (by decide), hclass "expanded" (by decide)]

theorem renamable_centered (h : t.Renamable kind name) : (centered t).Renamable kind name :=
  renamable_of h (plain_centered h.plain) (name_centered t) fun _ => hasClass_centered h.plain

theorem renamable_centeredItem (h : t.Renamable kind name) :
    (centeredItem t).Renamable kind name :=
  renamable_of h (plain_centeredItem h.plain) (name_centeredItem t) fun _ =>
    hasClass_centeredItem h.plain

theorem void_of_plain {s : Tag} (h : t.Plain) (hs : s.Plain) (hname : s.name = t.name) :
    s.void = t.void := by
  rw [hs.2.2.2.2, h.2.2.2.2, hname]

theorem clear_mapTop_centered {f : Forest α} (h : f.Clear (Tag.Renamable kind name)) :
    (f.mapTop centered).Clear (Tag.Renamable kind name) :=
  h.mapTop fun t ht =>
    ⟨renamable_centered ht, void_of_plain ht.plain (plain_centered ht.plain) (name_centered t)⟩

theorem clear_center {f : Forest α} (h : f.Clear (Tag.Renamable kind name)) :
    (center (.standard width) f).Clear (Tag.Renamable kind name) :=
  (clear_mapTop_centered h).mapTags fun t ht => ⟨renamable_centeredItem ht,
    void_of_plain ht.plain (plain_centeredItem ht.plain) (name_centeredItem t)⟩

theorem center_renamed (hc : CanBe kind name) {f g : Forest α}
    (h : Retagged (Tag.renamed kind name) f g) (hf : f.Clear (Tag.Renamable kind name)) :
    Retagged (Tag.renamed kind name) (center (.standard width) f)
      (center (.renamed width kind name) g) := by
  unfold center
  refine (h.mapTop fun t _ => ?_).mapTags _ _ fun t ht => ?_
  · rw [centered, Tag.set_renamed, Tag.addClass_renamed]
    rfl
  · rw [isItem_renamed ((clear_mapTop_centered hf).tags t ht) hc, Tag.addClass_renamed]
    split <;> rfl

-- ---------------------------------------------------------------------------
-- Frames

theorem names_frame (width : Int) {k : Component} (hk : k ≠ .marker) (t : Tag)
    (children : Forest α) (around : Neighbours) :
    (frame width k t children around).names.all generatedNames.contains = true ∧
      (¬(k = .button ∧ isWide t = true) →
        (frame width k t children around).names.contains "center" = false) := by
  cases k with
  | marker => exact absurd rfl hk
  | spacer =>
    rw [frame]
    rcases spacer_cases (carriedTexts t) t with ⟨_, -, _, -, h⟩ | ⟨_, _, -, -, h⟩ <;> rw [h] <;>
      exact ⟨rfl, fun _ => rfl⟩
  | button =>
    cases hw : isWide t with
    | true =>
      have h : (t.hasClass "expand" || t.hasClass "expanded") = true := hw
      simp only [frame, button, h, linked]
      cases t.filled? "href" <;> exact ⟨rfl, by simp⟩
    | false =>
      have h : (t.hasClass "expand" || t.hasClass "expanded") = false := hw
      simp only [frame, button, h, linked]
      cases t.filled? "href" <;> exact ⟨rfl, fun _ => rfl⟩
  | columns =>
    rw [frame]
    cases hasExpander (.standard width) t children (evenSize width t around.total) <;>
      exact ⟨rfl, fun _ => rfl⟩
  | _ => exact ⟨rfl, fun _ => rfl⟩

theorem frame_renamed (ht : t.Plain) {k : Component} (hk : k ≠ .columns) (f : Forest α)
    (g : Forest β) (around other : Neighbours) :
    frame width k (t.renamed kind name) g other = frame width k t f around := by
  obtain ⟨-, he⟩ | ⟨-, he⟩ := renamed_cases kind name ht
  · rw [he]
    cases k with
    | columns => exact absurd rfl hk
    | _ => rfl
  · rw [he]
    cases k with
    | columns => exact absurd rfl hk
    | _ => rfl

theorem countP_renamed (hc : CanBe kind name) {around other : List (Element α)}
    (ha : ∀ t ∈ around.map (·.tag), t.Renamable kind name)
    (h : other.map (·.tag) = (around.map (·.tag)).map (Tag.renamed kind name)) :
    (other.countP fun e => isColumn (.renamed width kind name) e.tag) =
      around.countP fun e => isColumn (.standard width) e.tag := by
  have hmap (p : Tag → Bool) (l : List (Element α)) :
      (l.countP fun e => p e.tag) = (l.map (·.tag)).countP p := by
    rw [List.countP_map]
    rfl
  rw [hmap, hmap, h, List.countP_map]
  exact List.countP_congr fun t ht => by
    rw [Function.comp_apply, isColumn_renamed (ha t ht) hc]

theorem hasExpander_renamed (hc : CanBe kind name) {f g : Forest α}
    (h : Retagged (Tag.renamed kind name) f g) (hf : f.Clear (Tag.Renamable kind name))
    (large : String) :
    hasExpander (.renamed width kind name) (t.renamed kind name) g large =
      hasExpander (.standard width) t f large := by
  have hmap (p : Tag → Bool) (f : Forest α) :
      (f.descendants.any fun e => p e.tag) = (f.descendants.map (·.tag)).any p := by
    rw [List.any_map]
    rfl
  have hrows : (g.descendants.any fun e => isRow (.renamed width kind name) e.tag) =
      f.descendants.any fun e => isRow (.standard width) e.tag := by
    rw [hmap, hmap, h.tags_descendants, List.any_map]
    rw [Bool.eq_iff_iff, List.any_eq_true, List.any_eq_true]
    refine exists_congr fun t => and_congr_right fun ht => ?_
    rw [Function.comp_apply, isRow_renamed (hf.tags t ht) hc]
  rw [hasExpander, hasExpander, hrows, wantsExpander, wantsExpander, Tag.get?_renamed]
  rfl

theorem template_renamed (hc : CanBe kind name) (k : Component) (ht : t.Renamable kind name)
    {f g : Forest Nat} (h : Retagged (Tag.renamed kind name) f g)
    (hf : f.Clear (Tag.Renamable kind name)) {before after before' after' : List (Element Nat)}
    (around : neighbours (.renamed width kind name) before' after' =
      neighbours (.standard width) before after) (parent : Option String) :
    template (.renamed width kind name) Format.standard (some k) (t.renamed kind name) g
        before' after' =
      .ok ((frame width k t f (neighbours (.standard width) before after)).fill
        (String.ofList (bareStyle.write parent g))) := by
  have hplain := plain_renamed hc ht.plain
  have hparent : bareStyle.write parent g = bareStyle.write (some (t.renamed kind name).name) g :=
    (Forest.write_bare g none parent).symm.trans (Forest.write_bare g none _)
  rw [hparent]
  by_cases hk : k = .columns
  · subst hk
    have hfilled (key : String) : (t.renamed kind name).filled? key = t.filled? key := by
      rw [Tag.filled?, Tag.get?_renamed, Tag.filled?]
    have hcarried : carriedTexts (t.renamed kind name) = carriedTexts t := by
      rw [carriedTexts, Tag.attributes_renamed, carriedTexts]
    have hclasses (large : String) (n : Neighbours) :
        columnClasses (.renamed width kind name) (t.renamed kind name) n large =
          columnClasses (.standard width) t n large := by
      rw [columnClasses, columnClasses, Tag.classes_renamed, hfilled]
      rfl
    have hlarge (total : Nat) : largeSize (.renamed width kind name) (t.renamed kind name) total =
        .ok (evenSize width t total) := by
      rw [← largeSize_standard, largeSize, largeSize, hfilled, hfilled]
      rfl
    rw [template, carried_plain hplain, hcarried, frame]
    simp only [around, hlarge, hclasses, hasExpander_renamed hc h hf, ok_bind,
      Format.write_standard]
    cases hx : hasExpander (.standard width) t f
      (evenSize width t (neighbours (.standard width) before after).total) <;> rfl
  · have hrules : template (.renamed width kind name) Format.standard (some k)
        (t.renamed kind name) g before' after' =
        template (.standard width) Format.standard (some k) (t.renamed kind name) g
          before' after' := by
      cases k with
      | columns => exact absurd rfl hk
      | _ => rfl
    rw [hrules, template_eq_fill width k (carried_plain hplain) g before' after',
      frame_renamed ht.plain hk f g (neighbours (.standard width) before after)]

-- ---------------------------------------------------------------------------
-- Reading a filled frame

theorem of_generated (hc : CanBe kind name) {x : String}
    (hgenerated : generatedNames.contains x = true) (hcenter : kind = .center → x ≠ "center") :
    Text.lowerString x ≠ kind.standardTag ∧
      ∀ s : Tag, s.Plain → s.name = x → s.Renamable kind name := by
  have hlower : ∀ x ∈ generatedNames, Text.lowerString x = x := by decide
  refine ⟨fun he => ?_, fun s hs hname => ⟨hs, fun he => ?_, fun _ he => ?_⟩⟩
  · rw [hlower x (List.contains_iff_mem.mp hgenerated)] at he
    rw [he] at hgenerated hcenter
    cases kind with
    | center => exact hcenter rfl rfl
    | _ => cases hgenerated
  · rw [← hname, he, hc.generated] at hgenerated
    cases hgenerated
  · rw [← hname, he] at hgenerated
    cases hgenerated

theorem of_mem_names_frame (hc : CanBe kind name) {k : Component} (hk : k ≠ .marker)
    (ht : t.Renamable kind name) (hkind : t.name = k.standardTag) (children : Forest α)
    (around : Neighbours) {x : String} (hx : x ∈ (frame width k t children around).names) :
    Text.lowerString x ≠ kind.standardTag ∧
      ∀ s : Tag, s.Plain → s.name = x → s.Renamable kind name := by
  obtain ⟨hall, hcenter⟩ := names_frame width hk t children around
  refine of_generated hc (List.all_eq_true.mp hall _ hx) fun hkc he => ?_
  have hnone : (frame width k t children around).names.contains "center" = false := by
    refine hcenter fun hwide => ?_
    obtain ⟨rfl, hwide⟩ := hwide
    rw [ht.narrow hkc hkind] at hwide
    cases hwide
  rw [List.contains_iff_mem.mpr (he ▸ hx)] at hnone
  cases hnone

theorem of_marker (hc : CanBe kind name) :
    Retagged (Tag.renamed kind name) markerForest markerForest ∧
      markerForest.Clear (Tag.Renamable kind name) := by
  obtain ⟨hrow, hrow'⟩ := of_generated hc (x := "tr") rfl fun _ => by decide
  obtain ⟨hcell, hcell'⟩ := of_generated hc (x := "td") rfl fun _ => by decide
  obtain ⟨himage, himage'⟩ := of_generated hc (x := "img") rfl fun _ => by decide
  refine ⟨Retagged.refl ?_, ?_⟩
  · have hall : ∀ s ∈ [markerRow, markerCell, markerImage], s.renamed kind name = s := by
      refine List.forall_mem_cons.mpr ⟨if_neg hrow, List.forall_mem_cons.mpr ⟨if_neg hcell, ?_⟩⟩
      exact List.forall_mem_singleton.mpr (if_neg himage)
    exact hall
  · exact ⟨hrow' _ (by decide) rfl, nofun, ⟨hcell' _ (by decide) rfl, nofun,
      ⟨himage' _ plain_markerImage rfl, fun _ => rfl, trivial, trivial⟩, trivial⟩, trivial⟩

theorem retagged_written {change : Tag → Tag} {T : Template}
    (hT : ∀ x ∈ T.names, ∀ a, change (Template.writtenTag x a) = Template.writtenTag x a)
    {f g : Forest Unit} (h : Retagged change f g) :
    Retagged change (T.written f) (T.written g) := by
  induction T with
  | nil => exact .nil
  | piece markup next ih =>
    refine Retagged.append ?_ (ih hT)
    unfold Template.pieceForest
    split
    · exact h
    · exact .leaf rfl .nil
  | element x a content next ihc ih =>
    have hinside := ihc fun y hy => hT y (List.mem_cons_of_mem _ (List.mem_append_left _ hy))
    have hbehind := ih fun y hy => hT y (List.mem_cons_of_mem _ (List.mem_append_right _ hy))
    have helement := Retagged.element (m := ()) (t := Template.writtenTag x a) hinside hbehind
    rwa [hT x List.mem_cons_self] at helement

theorem clear_renamed (hc : CanBe kind name) {f g : Forest α}
    (h : Retagged (Tag.renamed kind name) f g) (hf : f.Clear (Tag.Renamable kind name)) :
    g.Clear Tag.Plain :=
  h.clear (fun _ ht => ⟨plain_renamed hc ht.plain, Tag.void_of_renamed⟩) hf

/-- The frame of a component filled with what is inside, and filled with that once it is renamed. -/
theorem read_frame_renamed (width : Int) (hc : CanBe kind name) {k : Component}
    (ht : t.Renamable kind name) (hkind : t.name = k.standardTag) {f g : Forest α}
    (h : Retagged (Tag.renamed kind name) f g) (hf : f.Clear (Tag.Renamable kind name))
    (around : Neighbours) (parent other : Option String) : ∃ new new',
      Format.standard.read ((frame width k t f around).fill
        (String.ofList (bareStyle.write parent f))).write = .ok new ∧
      Format.standard.read ((frame width k t f around).fill
        (String.ofList (bareStyle.write other g))).write = .ok new' ∧
      Retagged (Tag.renamed kind name) new new' ∧ new.Clear (Tag.Renamable kind name) := by
  by_cases hk : k = .marker
  · subst hk
    exact ⟨markerForest, markerForest, read_fill_marker width t f around _,
      read_fill_marker width t f around _, of_marker hc⟩
  · have hT := plain_frame width ht.plain f around hk
    have hg := clear_renamed hc h hf
    have hplain (s : Tag) (hs : s.Renamable kind name) : s.Plain := hs.plain
    have hfb : f.bare.Clear (Tag.Renamable kind name) := Forest.clear_bare.mpr hf
    have hgb : g.bare.Clear Tag.Plain := Forest.clear_bare.mpr hg
    have hread : (((frame width k t f around).written f.bare).mapTags Tag.reread).Clear
        (Tag.Renamable kind name) :=
      Template.clear_written hplain hT (fun x hx =>
        (of_mem_names_frame hc hk ht hkind f around hx).2) hfb
    refine ⟨_, _, Template.read_fill_legible hT (hfb.isLegible hplain)
        (hf.not_mem_write (fun s hs => (hplain s hs).verbatim) _),
      Template.read_fill_legible hT (hgb.isLegible fun _ => id)
        (hg.not_mem_write (fun _ => Tag.Plain.verbatim) _),
      ?_, Forest.clear_reread hread [] rfl⟩
    refine Retagged.reread (retagged_written (fun x hx a => ?_) h.bare) (fun s hs => ?_) rfl ""
    · exact if_neg (of_mem_names_frame hc hk ht hkind f around hx).1
    · have hs' : s.reread.Renamable kind name := by
        refine hread.tags _ ?_
        rw [Forest.tags_mapTags]
        obtain ⟨e, he, rfl⟩ := List.mem_map.mp hs
        exact List.mem_map_of_mem he
      rw [Tag.reread_renamed hc]
      exact ⟨rfl, keepsBlanks_renamed hc hs'.plain⟩

end Expansion

end Mailgrid
