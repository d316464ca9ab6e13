import Mailgrid.Proofs.Renaming.Expansion
import Mailgrid.Proofs.Renaming.Spelling
import Mailgrid.Proofs.Unfolding.Expanded
import Mailgrid.Proofs.Unfolding.Order

/-!
# Runs with renamed components

Two runs side by side, on a document and on the same document with the elements
of one component renamed: what one does the other does, step by step, and they
stop for the same reason.
-/

namespace Mailgrid

open Component (CanBe tagWith)
open Expansion
open Markup (Forest Retagged Tag)

variable {kind : Component} {name : String} {width : Int} {d d' : Draft} {p : Pending}

/-- A draft in which a component can be renamed. -/
structure Draft.Renamable (kind : Component) (name : String) (d : Draft) : Prop where
  marked : d.document.Marked
  format : d.document.format = Format.standard
  clear : d.document.content.ClearBelow (Tag.Renamable kind name)

/-- The second draft is the first with a component renamed. -/
structure Draft.Renamed (kind : Component) (name : String) (d d' : Draft) : Prop where
  content : Retagged (Tag.renamed kind name) d.document.content d'.document.content
  format : d'.document.format = d.document.format
  next : d'.document.next = d.document.next
  spelling : d.document.spelling.Renamed kind name d'.document.spelling
  settled : d'.settled = d.settled

namespace Unfolder

-- ---------------------------------------------------------------------------
-- What is selected

/-- A component is selected in both documents, or in none. -/
structure Selected (width : Int) (kind : Component) (name : String) (d : Draft) (p p' : Pending) :
    Prop where
  places : Retagged.Places (Tag.renamed kind name) p.place p'.place
  clear : Forest.ClearPlace (Tag.Renamable kind name) p.place
  kind_eq : p'.kind = p.kind
  tag : p.tag = p.kind.standardTag
  tag_eq : p'.tag = tagWith kind name p.kind
  node : ∃ t children, p.place.node = .element t children ∧ t.name = p.kind.standardTag

theorem kindOf?_element (u : Unfolder) (settled : List Nat) (m : Nat) (t : Tag)
    (children : Forest Nat) : u.kindOf? settled m (.element t children) =
      if settled.contains m then none else u.components.lookup t.name := by
  rw [kindOf?]
  cases u.components.lookup t.name with
  | none => exact (ite_self none).symm
  | some => rfl

theorem selected_renamed (width : Int) (hc : CanBe kind name) (hd : d.Renamable kind name)
    (h : d.Renamed kind name d') : Option.Rel (Selected width kind name d)
      ((Unfolder.standard width).pending? d) ((Unfolder.renamed width kind name).pending? d') := by
  have hlook (t : Tag) (ht : t.Renamable kind name) (m : Nat) (f g : Forest Nat) :
      (Unfolder.renamed width kind name).kindOf? d'.settled m (.element (t.renamed kind name) g) =
        (Unfolder.standard width).kindOf? d.settled m (.element t f) := by
    rw [kindOf?_element, kindOf?_element, lookup_renamed ht hc, h.settled]
    rfl
  have hplaces : Option.Rel (Retagged.Places (Tag.renamed kind name))
      (d.document.content.place? fun m node =>
        ((Unfolder.standard width).kindOf? d.settled m node).isSome)
      (d'.document.content.place? fun m node =>
        ((Unfolder.renamed width kind name).kindOf? d'.settled m node).isSome) :=
    h.content.placeAfter? (fun _ _ _ => rfl) (fun _ _ _ => rfl)
      (fun t ht m f g => congrArg Option.isSome (hlook t (hd.clear.tags t ht) m f g)) rfl
  unfold pending?
  cases hp : d.document.content.place? fun m node =>
    ((Unfolder.standard width).kindOf? d.settled m node).isSome with
  | none =>
    rw [hp] at hplaces
    generalize d'.document.content.place? _ = found at hplaces ⊢
    cases hplaces
    exact .none
  | some place =>
    have hclear := hd.clear.place? hp
    have hwanted := Forest.wanted_of_place? hp
    rw [hp] at hplaces
    generalize d'.document.content.place? _ = found at hplaces ⊢
    cases hplaces with
    | @some _ other hsame =>
      cases hnode : place.node with
      | leaf => rw [hnode] at hwanted; cases hwanted
      | element t children =>
        obtain ⟨within, hother, hinside⟩ := hsame.node hnode
        obtain ⟨ht, hchildren⟩ := hclear.node hnode
        rw [hnode] at hwanted
        obtain ⟨k, hk⟩ := Option.isSome_iff_exists.mp hwanted
        have hkind : t.name = k.standardTag := by
          rw [kindOf?_element] at hk
          split at hk
          · cases hk
          · exact Component.named?_eq_some.mp hk
        have hk' := (hlook t ht place.mark children within).trans hk
        have hname := (ht.name_renamed hc k).mpr hkind
        simp only [pendingAt?, hnode, hother, hsame.mark, hk, hk', Option.map_some]
        exact .some ⟨hsame, hclear, rfl, hkind, hname, t, children, hnode, hkind⟩

-- ---------------------------------------------------------------------------
-- Expanding

theorem isEmpty_of_plain {t : Tag} (h : t.Plain) : t.name.isEmpty = false := by
  rw [Bool.eq_false_iff]
  intro he
  have hname := h.1
  rw [String.isEmpty_iff.mp he] at hname
  cases hname

theorem tag_of_mark {u : Unfolder} (hd : d.document.Marked) (hp : u.pending? d = some p) {t : Tag}
    {children : Forest Nat} (hnode : p.place.node = .element t children) {e : Markup.Element Nat}
    (he : e ∈ d.document.content.descendants) (hm : e.mark = p.place.mark) : e.tag = t := by
  obtain ⟨before, level, after, -, -, hb, -⟩ := between_of_pending? hp
  obtain ⟨x, hx, hxm, hxh⟩ := Forest.mem_outline_of_mem_descendants he 0
  have hheading := hb.heading_of_mark hd.nodup hx (hxm.trans hm)
  rw [hxh, hnode] at hheading
  cases hheading
  rfl

/-- A component is expanded in both documents, and they stay the same but for names. -/
theorem expand_renamed (hc : CanBe kind name) (hd : d.Renamable kind name)
    (h : d.Renamed kind name d') {p' : Pending} (hp : (Unfolder.standard width).pending? d = some p)
    (hs : Selected width kind name d p p') :
    ∃ e e', (Unfolder.standard width).expand d p = .ok e ∧
      (Unfolder.renamed width kind name).expand d' p' = .ok e' ∧
      e.Renamable kind name ∧ e.Renamed kind name e' := by
  obtain ⟨hplaces, hclear, hkind, -, -, t, children, hnode, hname⟩ := hs
  obtain ⟨within, hnode', hinside⟩ := hplaces.node hnode
  obtain ⟨ht, hchildren⟩ := hclear.node hnode
  have hformat' : d'.document.format = Format.standard := h.format.trans hd.format
  have hnonempty := isEmpty_of_plain ht.plain
  have hnonempty' := isEmpty_of_plain (plain_renamed hc ht.plain)
  by_cases hk : p.kind = .center
  · have hexpand := expand_of_center (u := Unfolder.standard width) (d := d) hnode hnonempty hk
    have hexpand' := expand_of_center (u := Unfolder.renamed width kind name) (d := d') hnode'
      hnonempty' (hkind.trans hk)
    refine ⟨_, _, hexpand, hexpand', ⟨marked_of_step hd.marked hp hexpand, hd.format, ?_⟩, ?_⟩
    · refine hd.clear.adapt (clear_center hchildren) fun e he hm => ?_
      rw [tag_of_mark hd.marked hp hnode he (by simpa using hm), ht.plain.2.2.2.2, hname, hk]
      rfl
    · refine ⟨?_, h.format, h.next, h.spelling, ?_⟩
      · rw [Document.adapt, Document.adapt, hplaces.mark]
        exact h.content.adapt (center_renamed hc hinside hchildren) _
      · rw [h.settled, hplaces.mark]
  · have hneighbours : neighbours (.renamed width kind name) p'.place.before p'.place.after =
        neighbours (.standard width) p.place.before p.place.after := by
      rw [neighbours, neighbours, countP_renamed hc hclear.before hplaces.before,
        countP_renamed hc hclear.after hplaces.after]
    obtain ⟨new, new', hread, hread', hnew, hclearNew⟩ := read_frame_renamed width hc ht
      hname hinside hchildren (neighbours (.standard width) p.place.before p.place.after)
      (some t.name) none
    have htemplate := template_eq_fill width p.kind (carried_plain ht.plain) children p.place.before p.place.after
    have htemplate' := template_renamed hc p.kind ht hinside hchildren hneighbours none
    rw [← hd.format] at htemplate hread
    rw [← hformat'] at htemplate' hread'
    have hexpand := expand_of_read (u := Unfolder.standard width) hnode hnonempty hk htemplate hread
    have hexpand' := expand_of_read (u := Unfolder.renamed width kind name) hnode' hnonempty'
      (hkind ▸ hk) (hkind ▸ htemplate') hread'
    obtain ⟨hnumber, hnext⟩ := hnew.number d.document.next
    refine ⟨_, _, hexpand, hexpand', ⟨marked_of_step hd.marked hp hexpand, hd.format, ?_⟩, ?_⟩
    · refine hd.clear.replace ?_ _
      rw [← Forest.clear_bare, Forest.bare_number]
      exact Forest.clear_bare.mpr hclearNew
    · rw [h.next, hplaces.mark]
      exact ⟨h.content.replace hnumber _, h.format, hnext, h.spelling, h.settled⟩

-- ---------------------------------------------------------------------------
-- Runs

/-- Two runs that did as much and stopped for the same reason. -/
structure Alike (kind : Component) (name : String) (limit : Int) (run run' : Run) : Prop where
  renamable : run.draft.Renamable kind name
  renamed : run.draft.Renamed kind name run'.draft
  count : run'.count = run.count
  failure : (run.failure = none ∧ run'.failure = none) ∨ ∃ c : Component,
    run.failure = some (.expansionLimit limit c.standardTag) ∧
      run'.failure = some (.expansionLimit limit (tagWith kind name c))

/-- Runs of a document and of the document with a component renamed go side by side. -/
theorem runFrom_renamed (width : Int) (hc : CanBe kind name) (limit : Int) (count left : Nat)
    (hd : d.Renamable kind name) (h : d.Renamed kind name d') :
    Alike kind name limit ((Unfolder.standard width).runFrom limit count left d)
      ((Unfolder.renamed width kind name).runFrom limit count left d') := by
  induction left generalizing count d d' with
  | zero =>
    have hselected := selected_renamed width hc hd h
    unfold runFrom
    generalize hp : (Unfolder.standard width).pending? d = found at hselected ⊢
    generalize (Unfolder.renamed width kind name).pending? d' = found' at hselected ⊢
    cases hselected with
    | none => exact ⟨hd, h, rfl, .inl ⟨rfl, rfl⟩⟩
    | @some p p' hs =>
      refine ⟨hd, h, rfl, .inr ⟨p.kind, ?_, ?_⟩⟩
      · rw [← hs.tag]
      · rw [← hs.tag_eq]
  | succ left ih =>
    have hselected := selected_renamed width hc hd h
    unfold runFrom
    generalize hp : (Unfolder.standard width).pending? d = found at hselected ⊢
    generalize (Unfolder.renamed width kind name).pending? d' = found' at hselected ⊢
    cases hselected with
    | none => exact ⟨hd, h, rfl, .inl ⟨rfl, rfl⟩⟩
    | some hs =>
      obtain ⟨e, e', hexpand, hexpand', he, hrenamed⟩ := expand_renamed hc hd h hp hs
      obtain ⟨hrenamable, hrest, hcount, hfailure⟩ := ih (count + 1) he hrenamed
      simp only [hexpand, hexpand']
      exact ⟨hrenamable, hrest, hcount, hfailure⟩

theorem run_renamed (width : Int) (hc : CanBe kind name) (limit : Int)
    (hd : d.Renamable kind name) (h : d.Renamed kind name d') :
    Alike kind name limit ((Unfolder.standard width).run limit d)
      ((Unfolder.renamed width kind name).run limit d') :=
  runFrom_renamed width hc limit 0 limit.toNat hd h

end Unfolder

end Mailgrid
