import Mailgrid.Proofs.Expansion.Rows
import Mailgrid.Proofs.Unfolding.OnePass

/-!
# Unfolding in any order

Away from centers it does not matter which component is expanded first. A step
keeps what the document unfolds to wherever it is taken, so all ways to the end
lead to the same document, and all take as many steps as there are components.

Components around the one that is expanded hand on what becomes of it. A
column does so because what comes into it holds rows as before.
-/

namespace Mailgrid

open Expansion
open Markup (Element Forest Node Place Tag)

namespace Unfolder

/-- The component with a mark. -/
def chosen? (u : Unfolder) (d : Draft) (mark : Nat) : Option Pending :=
  match d.document.content.place? fun m _ => m == mark with
  | some place => u.pendingAt? d.settled place
  | none => none

/-- Expansions one after the other, each of any component that is there. -/
inductive AnySteps (u : Unfolder) : Nat → Draft → Draft → Prop where
  | refl (d : Draft) : AnySteps u 0 d d
  | next {n mark : Nat} {d e last : Draft} {p : Pending} (chosen : u.chosen? d mark = some p)
      (expanded : u.expand d p = .ok e) (rest : AnySteps u n e last) : AnySteps u (n + 1) d last

theorem place_of_chosen? {u : Unfolder} {d : Draft} {mark : Nat} {p : Pending}
    (h : u.chosen? d mark = some p) :
    d.document.content.place? (fun m _ => m == mark) = some p.place ∧
      ∃ t children, p.place.node = .element t children ∧
        u.kindOf? d.settled p.place.mark (.element t children) = some p.kind := by
  unfold chosen? at h
  split at h
  · rename_i place hp
    unfold pendingAt? at h
    split at h
    · cases h
    · rename_i t children hnode
      obtain ⟨kind, hk, rfl⟩ := Option.map_eq_some_iff.mp h
      exact ⟨hp, t, children, hnode, hk⟩
  · cases h

theorem mem_marks_of_placeAfter? {wanted : Nat → Node Nat → Bool} {f : Forest Nat}
    {around : List (Element Nat)} {place : Place Nat}
    (h : f.placeAfter? wanted around = some place) : place.mark ∈ f.marks := by
  induction f generalizing around with
  | nil => cases h
  | leaf m kind content next ih =>
    simp only [Forest.placeAfter?] at h
    split at h
    · cases h
      exact List.mem_cons_self
    · exact List.mem_cons_of_mem _ (ih h)
  | element m t children next ihc ih =>
    simp only [Forest.placeAfter?] at h
    split at h
    · cases h
      exact List.mem_cons_self
    · split at h
      · rename_i hc
        cases h
        exact List.mem_cons_of_mem _ (List.mem_append_left _ (ihc hc))
      · exact List.mem_cons_of_mem _ (List.mem_append_right _ (ih h))

theorem placeAfter?_mark {wanted : Nat → Node Nat → Bool} {f : Forest Nat}
    {around : List (Element Nat)} {place : Place Nat}
    (h : f.placeAfter? wanted around = some place) (hn : f.marks.Nodup) :
    f.placeAfter? (fun m _ => m == place.mark) around = some place := by
  induction f generalizing around with
  | nil => cases h
  | leaf m kind content next ih =>
    simp only [Forest.marks, List.nodup_cons] at hn
    simp only [Forest.placeAfter?] at h ⊢
    split at h
    · cases h
      simp
    · have hne : m ≠ place.mark := fun he => hn.1 (he ▸ mem_marks_of_placeAfter? h)
      simp [hne, ih h hn.2]
  | element m t children next ihc ih =>
    simp only [Forest.marks, List.nodup_cons, List.nodup_append, List.mem_append, not_or] at hn
    obtain ⟨⟨hmc, hmn⟩, hchildren, hnext, hdisjoint⟩ := hn
    simp only [Forest.placeAfter?] at h ⊢
    split at h
    · cases h
      simp
    · split at h
      · rename_i hc
        cases h
        have hne : m ≠ place.mark := fun he => hmc (he ▸ mem_marks_of_placeAfter? hc)
        simp [hne, ihc hc hchildren]
      · have hmem := mem_marks_of_placeAfter? h
        have hne : m ≠ place.mark := fun he => hmn (he ▸ hmem)
        have hnone : children.placeAfter? (fun m _ => m == place.mark) [] = none := by
          cases hq : children.placeAfter? (fun m _ => m == place.mark) [] with
          | none => rfl
          | some q =>
            have hw : q.mark = place.mark := by simpa using Forest.wanted_of_placeAfter? hq
            exact absurd hw (hdisjoint _ (mem_marks_of_placeAfter? hq) _ hmem)
        simp [hne, hnone, ih h hnext]

theorem chosen_of_pending? {u : Unfolder} {d : Draft} {p : Pending} (hd : d.document.Marked)
    (h : u.pending? d = some p) : u.chosen? d p.place.mark = some p := by
  unfold pending? at h
  split at h
  · rename_i place hplace
    have hp : p.place = place := by
      have := place_of_pending? (u := u) (d := d) (p := p) (by rw [pending?, hplace]; exact h)
      exact Option.some.inj (this.1.symm.trans hplace)
    rw [chosen?, hp, Forest.place?, placeAfter?_mark hplace hd.nodup]
    exact h
  · cases h

theorem Steps.any {u : Unfolder} {n : Nat} {d e : Draft} (h : u.Steps n d e)
    (ho : u.Ordered d) : u.AnySteps n d e := by
  induction h with
  | refl d => exact .refl d
  | next selected expanded _ ih =>
    exact .next (chosen_of_pending? ho.marked selected) expanded (ih (ho.step selected expanded))

end Unfolder

namespace Expansion

/-- Neither a marker nor a center, no wide button, and no line around something. -/
def IsCalm (t : Tag) (empty : Bool) : Prop :=
  t.name ≠ "inky" ∧ t.name ≠ "center" ∧ (t.name = "button" → isWide t = false) ∧
    (t.name = "h-line" → empty = true)

instance (t : Tag) (empty : Bool) : Decidable (IsCalm t empty) :=
  inferInstanceAs (Decidable (_ ∧ _))

/-- Do elements in columns bring in no rows by their values? -/
def ColumnsKeepRows (f : Forest α) : Prop :=
  ∀ e ∈ f.descendants, e.tag.name = "columns" → e.children.Every fun t _ => keepsRows t = true

instance (f : Forest α) : Decidable (ColumnsKeepRows f) :=
  inferInstanceAs (Decidable (∀ e ∈ f.descendants, _))

/-- How many components there are. -/
def componentCount (f : Forest α) : Nat :=
  f.descendants.countP fun e => (Component.named? e.tag.name).isSome

theorem componentCount_bare (f : Forest α) : componentCount f.bare = componentCount f := by
  induction f with
  | nil => rfl
  | leaf m kind content next ih => exact ih
  | element m t children next ihc ih =>
    simp only [componentCount, Forest.bare, Forest.descendants, List.countP_cons,
      List.countP_append] at ihc ih ⊢
    rw [ihc, ih]

theorem isCalm_of_not_named {t : Tag} (h : Component.named? t.name = none) (empty : Bool) :
    IsCalm t empty := by
  refine ⟨?_, ?_, ?_, ?_⟩ <;> intro hn <;> rw [hn] at h <;> cases h

theorem keepsRows_of_not_named {t : Tag} (h : Component.named? t.name = none) :
    keepsRows t = true := by
  have hne (name : String) (hs : (Component.named? name).isSome = true) : (t.name != name) = true := by
    rw [bne_iff_ne]
    rintro rfl
    rw [h] at hs
    cases hs
  rw [keepsRows, hne "block-grid" rfl, hne "columns" rfl]
  rfl

theorem IsCalm.of_named {t : Tag} {empty : Bool} (h : IsCalm t empty) {kind : Component}
    (hk : Component.named? t.name = some kind) :
    kind ≠ .marker ∧ kind ≠ .center ∧ ¬(kind = .button ∧ isWide t = true) ∧
      (kind = .line → empty = true) := by
  obtain ⟨hmarker, hcenter, hbutton, hline⟩ := h
  have hn := Component.named?_eq_some.mp hk
  refine ⟨?_, ?_, ?_, ?_⟩
  · rintro rfl; exact hmarker hn
  · rintro rfl; exact hcenter hn
  · rintro ⟨rfl, hw⟩; exact absurd (hbutton hn) (by simp [hw])
  · rintro rfl; exact hline hn

/-- A plain spacer is empty, as the reader closes it at once. -/
theorem isNil_of_spacer {t : Tag} (ht : t.Plain) (hn : t.name = "spacer") {children : Forest α}
    (hhollow : t.void = true → children.isNil = true) : children.isNil = true := by
  refine hhollow ?_
  rw [ht.2.2.2.2, hn]
  decide

variable {α : Type} {s : Spot α} {new f g : Forest α} {through : α → Tag → Prop} {before : Nat}

theorem isNil_of_not_keepsContent {t : Tag} {children : Forest α} {kind : Component}
    (hk : Component.named? t.name = some kind) (hcalm : IsCalm t children.isNil) (ht : t.Plain)
    (hhollow : t.void = true → children.isNil = true) (hkeeps : kind.keepsContent = false) :
    children.isNil = true := by
  obtain ⟨hmarker, -, -, hline⟩ := hcalm.of_named hk
  cases kind with
  | line => exact hline rfl
  | spacer => exact isNil_of_spacer ht (Component.named?_eq_some.mp hk) hhollow
  | marker => exact absurd rfl hmarker
  | _ => cases hkeeps

/-- In a calm forest every element on the way to a place hands on what becomes of its content. -/
theorem Replaced.handsOn (settled : α → Bool) (h : Replaced s new through before f g)
    (hplain : f.Plain) (hcalm : f.Every IsCalm) (hrows : ColumnsKeepRows f) :
    Replaced s new (HandsOn settled (keepsRows s.tag = true)) before f g := by
  induction h with
  | here => exact .here
  | leaf kind content apart _ ih =>
    cases kind with
    | text => exact .leaf _ content apart (ih hplain.2.2 hcalm hrows)
    | _ => exact absurd hplain id
  | @inside f g before m t behind apart outside _ rest ih =>
    obtain ⟨ht, hhollow, hchildren, -⟩ := hplain
    obtain ⟨htag, hinner, -⟩ := Forest.every_element.mp hcalm
    simp only [ColumnsKeepRows, Forest.descendants, List.forall_mem_cons,
      List.forall_mem_append] at hrows
    refine .inside apart outside ?_ (ih hchildren hinner hrows.2.1)
    cases hm : pendingKind settled m t with
    | none => exact .inl hm
    | some kind =>
      have hnamed := named_of_pendingKind hm
      obtain ⟨-, hcenter, hwide, -⟩ := htag.of_named hnamed
      refine .inr ⟨kind, hm, hcenter, ?_, hwide, ?_⟩
      · by_contra hkeeps
        have := isNil_of_not_keepsContent hnamed htag ht hhollow (by simpa using hkeeps)
        rw [rest.isNil_left] at this
        cases this
      · rintro rfl
        exact (rest.every_spot (hrows.1 (Component.named?_eq_some.mp hnamed))).1
  | behind apart outside _ ih =>
    obtain ⟨-, -, -, hnext⟩ := hplain
    obtain ⟨-, -, hb⟩ := Forest.every_element.mp hcalm
    simp only [ColumnsKeepRows, Forest.descendants, List.forall_mem_cons,
      List.forall_mem_append] at hrows
    exact .behind apart outside (ih hnext hb hrows.2.2)

theorem columnsKeepRows_append {f g : Forest α} (hf : ColumnsKeepRows f) (hg : ColumnsKeepRows g) :
    ColumnsKeepRows (f ++ g) := by
  intro e he
  rw [Forest.descendants_append, List.mem_append] at he
  exact he.elim (hf e) (hg e)

theorem Replaced.columnsKeepRows (h : Replaced s new through before f g)
    (hn : new.isNil = false) (hf : ColumnsKeepRows f)
    (hnew : ColumnsKeepRows s.children → ColumnsKeepRows new)
    (hevery : s.children.Every (fun t _ => keepsRows t = true) →
      new.Every fun t _ => keepsRows t = true) : ColumnsKeepRows g := by
  induction h with
  | here =>
    simp only [ColumnsKeepRows, Forest.descendants, List.forall_mem_cons,
      List.forall_mem_append] at hf
    exact columnsKeepRows_append (hnew hf.2.1) hf.2.2
  | leaf _ _ _ _ ih => exact ih hf
  | inside _ _ _ rest ih =>
    simp only [ColumnsKeepRows, Forest.descendants, List.forall_mem_cons,
      List.forall_mem_append] at hf ⊢
    refine ⟨fun ht => ?_, ih hf.2.1, hf.2.2⟩
    exact rest.every hn (hf.1 ht) (hevery (rest.every_spot (hf.1 ht)).2)
  | behind _ _ _ ih =>
    simp only [ColumnsKeepRows, Forest.descendants, List.forall_mem_cons,
      List.forall_mem_append] at hf ⊢
    exact ⟨hf.1, hf.2.1, ih hf.2.2⟩

/-- A calm forest takes one expansion for each component. -/
theorem expansions_of_calm (hplain : f.Plain) (hcalm : f.Every IsCalm) :
    expansions (fun _ => false) f = componentCount f := by
  induction f with
  | nil => rfl
  | leaf m kind content next ih =>
    cases kind with
    | text => exact ih hplain.2.2 hcalm
    | _ => exact absurd hplain id
  | element m t children next ihc ih =>
    obtain ⟨ht, hhollow, hchildren, hnext⟩ := hplain
    obtain ⟨htag, hi, hb⟩ := Forest.every_element.mp hcalm
    have hcount : componentCount (.element m t children next) =
        componentCount children + componentCount next +
          (Component.named? t.name).isSome.toNat := by
      simp only [componentCount, Forest.descendants, List.countP_cons, List.countP_append]
      cases (Component.named? t.name).isSome <;> rfl
    rw [hcount, ← ihc hchildren hi, ← ih hnext hb]
    cases hn : Component.named? t.name with
    | none =>
      have hpending : pendingKind (fun _ => false) m t = none := hn
      exact expansions_of_not_pending hpending children next
    | some kind =>
      obtain ⟨-, -, hwide, -⟩ := htag.of_named hn
      have hpending : pendingKind (fun _ => false) m t = some kind := hn
      rw [expansions_of_pending hpending, ownExpansions, if_neg hwide]
      have hdropped : kind.keepsContent = false → expansions (fun _ => false) children = 0 := by
        intro hkeeps
        have hnil := isNil_of_not_keepsContent hn htag ht hhollow hkeeps
        cases children with
        | nil => rfl
        | _ => cases hnil
      cases hkeeps : kind.keepsContent with
      | true => simp only [if_true, Option.isSome_some, Bool.toNat_true]; omega
      | false =>
        rw [hdropped hkeeps]
        simp only [Bool.false_eq_true, if_false, Option.isSome_some, Bool.toNat_true]
        omega

end Expansion

-- ---------------------------------------------------------------------------
-- Steps

/-- A regular draft without settled elements, and with calm components only. -/
structure Draft.Calm (d : Draft) : Prop where
  regular : d.Regular
  unsettled : d.settled = []
  calm : d.document.content.Every IsCalm
  rows : ColumnsKeepRows d.document.content

namespace Draft.Calm

variable {width : Int} {d e : Draft} {p : Pending}

theorem isSettled_eq (hd : d.Calm) : d.isSettled = fun _ => false := by
  funext m
  rw [Draft.isSettled, hd.unsettled]
  rfl

/-- Every component of a calm draft can be expanded, and the draft stays calm and unfolds to the
same. -/
theorem step (hd : d.Calm) {mark : Nat}
    (chosen : (Unfolder.standard width).chosen? d mark = some p) :
    ∃ e, (Unfolder.standard width).expand d p = .ok e ∧ e.Calm ∧
      unfolded width (fun _ => false) 0 e.document.content =
        unfolded width (fun _ => false) 0 d.document.content ∧
      componentCount e.document.content + 1 = componentCount d.document.content := by
  obtain ⟨hplace, t, children, hnode, hk⟩ := Unfolder.place_of_chosen? chosen
  rw [Unfolder.kindOf?_standard] at hk
  have hnamed := named_of_pendingKind hk
  have hl (m : Nat) (t : Tag) (_ : Forest Nat) : (m == mark) = (fun m (_ : Tag) => m == mark) m t :=
    rfl
  obtain ⟨hcalm, -⟩ : IsCalm t children.isNil ∧ children.Every IsCalm := by
    obtain ⟨_, -, hreplaced⟩ := replaced_of_placeAfter? hl hplace hd.regular.marked.nodup hnode
    obtain ⟨_, hg⟩ := hreplaced .nil
    exact hg.every_spot hd.calm
  obtain ⟨hmarker, hcenter, hwide, hline⟩ := hcalm.of_named hnamed
  obtain ⟨s, new, e, hmark, rfl, rfl, hexpand, he⟩ :=
    hd.regular.exists_expanded width hl hplace hnode hnamed hcenter
  obtain ⟨ht, hhollow, hc⟩ := he.replaced.plain_spot hd.regular.plain
  obtain ⟨hitem, -⟩ := he.replaced.every_spot hd.regular.items
  obtain ⟨-, hcalmIn⟩ := he.replaced.every_spot hd.calm
  obtain ⟨hnil, -⟩ := outside_of_bare he.bare hcenter ht hnamed hitem hc
  have hopened := { he with
    replaced := he.replaced.handsOn d.isSettled hd.regular.plain hd.calm hd.rows }
  have hrows (hk : keepsRows s.tag = true) :
      (new.descendants.any fun e => isRow (.standard width) e.tag) =
        (isRow (.standard width) s.tag ||
          s.children.descendants.any fun e => isRow (.standard width) e.tag) := by
    rw [← any_tags_bare, ← any_tags_bare _ s.children, he.bare]
    exact any_rows_resultOf width ht (Component.named?_eq_some.mp hnamed) hmarker hcenter hwide hk
      (isNil_of_not_keepsContent hnamed hcalm ht hhollow) _ _ (Forest.isNil_bare _)
  obtain ⟨hu, hx⟩ := hopened.unfolded_eq hd.regular (hmark ▸ hk) hcenter
    (fun m _ => by rw [hd.isSettled_eq]) hrows
  have hnext : e.Calm := by
    refine ⟨he.regular, he.settled.trans hd.unsettled, ?_, ?_⟩
    · exact he.replaced.every hnil hd.calm (every_of_bare he.bare
        (fun _ b h => isCalm_of_not_named h b) (fun hw => absurd hw hwide) hcalmIn)
    · refine he.replaced.columnsKeepRows hnil hd.rows (fun hr => ?_) fun hr => ?_
      · have hall := forall_of_bare he.bare (Q := fun t f => t.name = "columns" →
            f.Every fun t _ => keepsRows t = true) (fun t f h hn => by rw [hn] at h; cases h)
          (fun hw => absurd hw hwide) fun x hx hn => Forest.every_bare.mpr (hr x hx hn)
        exact fun x hx hn => Forest.every_bare.mp (hall x hx hn)
      · exact every_of_bare he.bare (fun _ _ h => keepsRows_of_not_named h)
          (fun hw => absurd hw hwide) hr
  rw [hnext.isSettled_eq, hd.isSettled_eq] at hu hx
  rw [expansions_of_calm he.regular.plain hnext.calm,
    expansions_of_calm hd.regular.plain hd.calm] at hx
  exact ⟨e, hexpand, hnext, hu, hx⟩

theorem exists_chosen (hd : d.Calm) {x : Element Nat} (hx : x ∈ d.document.content.descendants)
    (hnamed : (Component.named? x.tag.name).isSome = true) :
    ∃ p, (Unfolder.standard width).chosen? d x.mark = some p := by
  let look : Nat → Markup.Heading → Bool := fun m _ => m == x.mark
  have hl (m : Nat) (node : Node Nat) : (m == x.mark) = look m node.heading := rfl
  obtain ⟨y, hy, hym, hyh⟩ := Forest.mem_outline_of_mem_descendants hx 0
  cases hplace : d.document.content.place? fun m _ => m == x.mark with
  | none =>
    have := Forest.not_found_of_placeAfter? hl hplace 0 y hy
    simp [look, hym] at this
  | some place =>
    obtain ⟨before, level, after, hb, -⟩ := Forest.between_of_placeAfter? hl hplace 0
    have hmark : place.mark = x.mark := by simpa using Forest.wanted_of_place? hplace
    have hheading := hb.heading_of_mark hd.regular.marked.nodup hy (hym.trans hmark.symm)
    rw [hyh] at hheading
    obtain ⟨kind, hkind⟩ := Option.isSome_iff_exists.mp hnamed
    cases hnode : place.node with
    | leaf => simp [hnode, Markup.Node.heading] at hheading
    | element t children =>
      rw [hnode] at hheading
      cases hheading
      refine ⟨⟨place, x.tag.name, kind⟩, ?_⟩
      have hpending : pendingKind d.isSettled place.mark x.tag = some kind := by
        rw [pendingKind, hd.isSettled_eq, hkind]
        rfl
      simp only [Unfolder.chosen?, hplace, Unfolder.pendingAt?, hnode, Unfolder.kindOf?_standard,
        hpending, Option.map_some]

end Draft.Calm

-- ---------------------------------------------------------------------------
-- All ways to the end

theorem Draft.Calm.steps {width : Int} {n : Nat} {d e : Draft} (hd : d.Calm)
    (h : (Unfolder.standard width).AnySteps n d e) :
    e.Calm ∧ unfolded width (fun _ => false) 0 e.document.content =
        unfolded width (fun _ => false) 0 d.document.content ∧
      n + componentCount e.document.content = componentCount d.document.content := by
  induction h with
  | refl => exact ⟨hd, rfl, Nat.zero_add _⟩
  | next chosen expanded _ ih =>
    obtain ⟨e, hexpand, he, hu, hx⟩ := hd.step chosen
    obtain rfl := Except.ok.inj (hexpand.symm.trans expanded)
    obtain ⟨hlast, hul, hxl⟩ := ih he
    exact ⟨hlast, hul.trans hu, by omega⟩

/-- From a plain document with calm components, a component can be expanded as long as there is one;
each way to the end has as many steps as there were components at first, and all of them end with
the same document, the one that the first unfolds to. -/
theorem Unfolder.same_end_in_any_order (width : Int) {engine : Engine} {log : List Message}
    (built : Engine.build { Settings.standard with columnCount := width } .null =
      .ok (engine, log))
    {document : Document} (formatted : document.format = engine.format)
    (marked : document.Marked) (plain : document.content.Plain)
    (calm : ∀ e ∈ document.content.descendants, e.tag.name ≠ "inky" ∧ e.tag.name ≠ "center" ∧
      (e.tag.name = "button" → isWide e.tag = false) ∧
      (e.tag.name = "h-line" → e.children.isNil = true) ∧
      (e.tag.name = "item" → e.tag.hasClass "columns" = false))
    (rows : ∀ e ∈ document.content.descendants, e.tag.name = "columns" →
      ∀ x ∈ e.children.descendants, keepsRows x.tag = true) :
    ∀ n d, engine.unfolder.AnySteps n ⟨document, []⟩ d →
      n + componentCount d.document.content = componentCount document.content ∧
      (∀ x ∈ d.document.content.descendants, (Component.named? x.tag.name).isSome = true →
        ∃ p e, engine.unfolder.chosen? d x.mark = some p ∧ engine.unfolder.expand d p = .ok e) ∧
      (componentCount d.document.content = 0 →
        d.document.content.bare = unfolded width (fun _ => false) 0 document.content) := by
  intro n d hsteps
  obtain ⟨engine', hbuild, hunfolder, hformat⟩ := build_standard width
  rw [hbuild] at built
  cases built
  rw [hunfolder] at hsteps ⊢
  have hregular : Draft.Regular ⟨document, []⟩ :=
    ⟨marked, formatted.trans hformat, plain, fun e he => (calm e he).2.2.2.2, by simp⟩
  have hstart : Draft.Calm ⟨document, []⟩ := by
    refine ⟨hregular, rfl, fun e he => ?_, rows⟩
    obtain ⟨hmarker, hcenter, hbutton, hline, -⟩ := calm e he
    exact ⟨hmarker, hcenter, hbutton, hline⟩
  obtain ⟨hd, hu, hx⟩ := hstart.steps hsteps
  refine ⟨hx, fun x hxd hnamed => ?_, fun hzero => ?_⟩
  · obtain ⟨p, hp⟩ := hd.exists_chosen hxd hnamed
    obtain ⟨e, he, -⟩ := hd.step hp
    exact ⟨p, e, hp, he⟩
  · rw [← hu]
    refine (unfolded_of_not_pending width (fun x hxd => ?_) 0).1.symm
    have := List.countP_eq_zero.mp hzero x hxd
    simpa [pendingKind] using this

theorem Unfolder.same_end_of_button_in_columns :
    let document : Document := ⟨Format.standard, .empty,
      .element 0 ⟨"columns", [], false⟩
        (.element 1 ⟨"button", [], false⟩ (.leaf 2 (.text .plain) "a" .nil) .nil) .nil, 3⟩
    ∃ d, (Unfolder.standard 12).AnySteps 2 ⟨document, []⟩ d ∧
      2 + componentCount d.document.content = componentCount document.content ∧
      (componentCount d.document.content = 0 →
        d.document.content.bare = unfolded 12 (fun _ => false) 0 document.content) := by
  intro document
  have hstart : Draft.Calm ⟨document, []⟩ :=
    ⟨⟨⟨by decide, by decide⟩, rfl, by decide, by decide, by simp⟩, rfl, by decide, by decide⟩
  -- the button first, and the column around it after that
  let p : Pending := ⟨⟨1, .element ⟨"button", [], false⟩ (.leaf 2 (.text .plain) "a" .nil), [], []⟩,
    "button", .button⟩
  have hp : (Unfolder.standard 12).chosen? ⟨document, []⟩ 1 = some p := rfl
  obtain ⟨e, hexpand, he, -, hcount⟩ := hstart.step hp
  have hone : expansions e.isSettled e.document.content = 1 := by
    have htwo : componentCount document.content = 2 := by decide
    rw [he.isSettled_eq, expansions_of_calm he.regular.plain he.calm]
    exact Nat.succ.inj (hcount.trans htwo)
  have hordered : (Unfolder.standard 12).Ordered e :=
    ordered_of_unsettled he.regular.marked he.unsettled
  obtain ⟨d, hd, -⟩ := he.regular.exists_end hordered
  have hsteps : (Unfolder.standard 12).AnySteps 2 ⟨document, []⟩ d :=
    .next hp hexpand (hone ▸ hd.any hordered)
  obtain ⟨hleft, -, hend⟩ := same_end_in_any_order 12 rfl rfl ⟨by decide, by decide⟩ (by decide)
    (by decide) (by decide) 2 d hsteps
  exact ⟨d, hsteps, hleft, hend⟩

/-- With values that bring in rows it does matter: a column that is expanded before the block grid in
it takes an expander, and one that is expanded after it finds a row in its content. -/
theorem Unfolder.not_same_end_in_any_order :
    let document : Document := ⟨Format.standard, .empty,
      .element 0 ⟨"columns", [], false⟩
        (.element 1 ⟨"block-grid", [("up", .text "2 row")], false⟩ .nil .nil) .nil, 2⟩
    document.content.Plain ∧ document.Marked ∧
      (∀ e ∈ document.content.descendants, e.tag.name ≠ "inky" ∧ e.tag.name ≠ "center" ∧
        (e.tag.name = "button" → isWide e.tag = false) ∧
        (e.tag.name = "h-line" → e.children.isNil = true) ∧
        (e.tag.name = "item" → e.tag.hasClass "columns" = false)) ∧
      ∃ d e, (Unfolder.standard 12).AnySteps 2 ⟨document, []⟩ d ∧
        (Unfolder.standard 12).AnySteps 2 ⟨document, []⟩ e ∧
        componentCount d.document.content = 0 ∧ componentCount e.document.content = 0 ∧
        d.document.content.bare ≠ e.document.content.bare := by
  intro document
  have hplain : document.content.Plain := by decide
  have hmarked : document.Marked := ⟨by decide, by decide⟩
  have hcalm : ∀ e ∈ document.content.descendants, e.tag.name ≠ "inky" ∧ e.tag.name ≠ "center" ∧
      (e.tag.name = "button" → isWide e.tag = false) ∧
      (e.tag.name = "h-line" → e.children.isNil = true) ∧
      (e.tag.name = "item" → e.tag.hasClass "columns" = false) := by decide
  refine ⟨hplain, hmarked, hcalm, ?_⟩
  have hregular : Draft.Regular ⟨document, []⟩ :=
    ⟨hmarked, rfl, hplain, fun e he => (hcalm e he).2.2.2.2, by simp⟩
  have hordered {d : Draft} (hd : d.Regular) (hs : d.settled = []) :
      (Unfolder.standard 12).Ordered d := ordered_of_unsettled hd.marked hs
  obtain ⟨d, hd, hdb⟩ := hregular.exists_end (hordered hregular rfl)
  -- the block grid first
  let p : Pending := ⟨⟨1, .element ⟨"block-grid", [("up", .text "2 row")], false⟩ .nil, [], []⟩,
    "block-grid", .blockGrid⟩
  have hp : (Unfolder.standard 12).chosen? ⟨document, []⟩ 1 = some p := rfl
  let look : Nat → Tag → Bool := fun m _ => m == 1
  have hl (m : Nat) (t : Tag) (_ : Forest Nat) : (m == 1) = look m t := rfl
  obtain ⟨s, new, e', hmark, htag, hchildren, hexpand, he⟩ :=
    hregular.exists_expanded 12 hl (Unfolder.place_of_chosen? hp).1 rfl rfl (by decide)
  have hunsettled : e'.settled = [] := he.settled
  let grid : Forest Unit := resultOf 12 .blockGrid
    ⟨"block-grid", [("up", .text "2 row")], false⟩ (.nil : Forest Nat)
    (neighboursOf 0 (.nil : Forest Nat)) .nil
  have hcontent : e'.document.content.bare = .element () ⟨"columns", [], false⟩ grid .nil := by
    have hbare := he.bare
    rw [htag, hchildren] at hbare
    have hreplace : document.content.replace (· == p.place.mark) new =
      .element 0 ⟨"columns", [], false⟩ (new ++ .nil) .nil := rfl
    rw [← he.replaced.eq_replace, hmark, hreplace, Forest.append_nil, Forest.bare, hbare]
    rfl
  have hsettled : e'.isSettled = fun _ => false := by
    funext m
    rw [Draft.isSettled, hunsettled]
    rfl
  obtain ⟨e, hs, heb⟩ := he.regular.exists_end (hordered he.regular hunsettled)
  rw [hsettled, ← unfolded_bare, hcontent] at heb
  rw [hsettled, ← expansions_bare, hcontent] at hs
  -- what the column holds is the same in the end, but what it finds in it is not
  have hcolumn {α : Type} (m : α) (f : Forest α) :
      unfolded 12 (fun _ => false) 0 (.element m ⟨"columns", [], false⟩ f .nil) =
        resultOf 12 .columns ⟨"columns", [], false⟩ f (neighboursOf 0 (.nil : Forest α))
          (unfolded 12 (fun _ => false) 0 f) := by
    have hm : pendingKind (fun _ => false) m ⟨"columns", [], false⟩ = some .columns := rfl
    rw [unfolded_element, hm, outcome_of_component 12 (by decide) (by decide), unfolded,
      Forest.append_nil]
  have hgrid : unfolded 12 (fun _ => false) 0
      (.element 1 ⟨"block-grid", [("up", .text "2 row")], false⟩ .nil .nil : Forest Nat) = grid := by
    have hm : pendingKind (fun _ => false) 1
      ⟨"block-grid", [("up", .text "2 row")], false⟩ = some .blockGrid := rfl
    rw [unfolded_element, hm, outcome_of_component 12 (by decide) (by decide), unfolded, unfolded,
      Forest.append_nil]
  have hfinal : ∀ x ∈ grid.descendants, pendingKind (fun _ => false) x.mark x.tag = none := by
    decide
  rw [hcolumn, (unfolded_of_not_pending 12 hfinal 0).1] at heb
  replace hdb := hdb.trans ((hcolumn 0 _).trans (congrArg _ hgrid))
  refine ⟨d, e, hd.any (hordered hregular rfl),
    .next hp hexpand (hs.any (hordered he.regular hunsettled)), ?_, ?_, ?_⟩
  · rw [← componentCount_bare, hdb]
    decide
  · rw [← componentCount_bare, heb]
    decide
  · rw [hdb, heb]
    decide

end Mailgrid
