import Mailgrid.Engine
import Mailgrid.Proofs.Document.Marks
import Mailgrid.Proofs.Template
import Mailgrid.Proofs.Unfolding.Step
import Mathlib.Data.List.Nodup

/-!
# Unfolding goes forward

`run_goes_forward`: what stands before a selected component in document order
is not pending and stays as it is. The invariant is `Ordered`: the settled
elements stand in a front part of the document in which nothing is pending.
A selection is always behind that part, and a step changes only what is behind
the selection.
-/

namespace Mailgrid

open Markup (Entry Forest Heading)

namespace Unfolder

/-- A first part of a document in which nothing is pending. -/
def Front (u : Unfolder) (d : Draft) (front : List (Entry Nat)) : Prop :=
  front <+: d.outline ∧ ∀ x ∈ front, u.awaits d.settled x.mark x.heading = false

/-- An element of the centering kind. -/
def IsCenter (u : Unfolder) (x : Entry Nat) : Prop :=
  ∃ t, x.heading = .element t ∧ u.components.lookup t.name = some .center

/-- All settled elements are centers within a front. -/
structure Ordered (u : Unfolder) (d : Draft) : Prop where
  marked : d.document.Marked
  settled : ∃ front, u.Front d front ∧ ∀ m ∈ d.settled, ∃ x ∈ front, x.mark = m ∧ u.IsCenter x

variable {u : Unfolder} {d e : Draft} {p : Pending}

-- ---------------------------------------------------------------------------
-- One step

theorem not_awaits_of_append {settled : List Nat} {mark : Nat} {heading : Heading}
    (h : u.awaits settled mark heading = false) (more : List Nat) :
    u.awaits (settled ++ more) mark heading = false := by
  cases heading with
  | leaf => rfl
  | element t =>
    simp only [awaits, Bool.and_eq_false_iff, Bool.not_eq_false'] at h ⊢
    rcases h with h | h
    · exact .inl h
    · exact .inr (by simp at h ⊢; exact .inl h)

/-- All that a step does: what stands before the selection stays, and behind it come new nodes or
the centered ones. -/
theorem step_cases (hd : d.document.Marked) (selected : u.pending? d = some p)
    (expanded : u.expand d p = .ok e) :
    ∃ before level after t children,
      d.outline = before ++ ⟨level, p.place.mark, .element t⟩ ::
        (Forest.outline (level + 1) children ++ after) ∧
      (∀ x ∈ before, u.awaits d.settled x.mark x.heading = false) ∧
      u.components.lookup t.name = some p.kind ∧ p.place.mark ∉ d.settled ∧
      p.place.node.heading = .element t ∧ (d.free u).Sublist (e.free u) ∧
      ((p.kind ≠ .center ∧ e.settled = d.settled ∧ ∃ new : Forest Unit,
          e.document.next = (new.number d.document.next).2 ∧
          e.outline = before ++ ((new.number d.document.next).1.outline level ++ after)) ∨
        (p.kind = .center ∧ e.settled = d.settled ++ [p.place.mark] ∧
          e.document.next = d.document.next ∧
          e.outline = before ++ ⟨level, p.place.mark, .element t⟩ ::
            ((Expansion.center u.rules children).outline (level + 1) ++ after))) := by
  obtain ⟨before, level, after, t, children, hb, hn, hnode, -, hl, hm⟩ :=
    between_of_pending? selected
  have hheading : p.place.node.heading = .element t := by rw [hnode]; rfl
  have houtline := hb.outline
  simp only [hnode, Markup.Node.heading, Markup.Node.children] at houtline
  have hw : ∀ x ∈ before ++ after, (x.mark == p.place.mark) = false := fun x hx =>
    beq_false_of_ne (hb.mark_ne hd.nodup x hx)
  have hheld : ∀ x ∈ d.document.content.outline 0, (x.mark == p.place.mark) = true →
      x.heading = .element t := fun x hx hxm =>
    (hb.heading_of_mark hd.nodup hx (by simpa using hxm)).trans hheading
  have hcomponent : (u.components.lookup t.name).isSome = true := by rw [hl]; rfl
  refine ⟨before, level, after, t, children, houtline, hn, hl, hm, hheading, ?_⟩
  rcases expand_cases hnode expanded with ⟨hk, new, hs, hnext, hc⟩ | ⟨hk, hs, hnext, hc⟩
  · refine ⟨?_, .inl ⟨hk, hs, new, hnext, ?_⟩⟩
    · rw [Draft.free, Draft.free, hc]
      exact Forest.free_sublist_replace (fun x hx hxm => ⟨t, hheld x hx hxm, hcomponent⟩) _
    · rw [Draft.outline, hc]
      exact hb.replace (· == p.place.mark) (by simp) hw _
  · refine ⟨?_, .inr ⟨hk, hs, hnext, ?_⟩⟩
    · have hfree : e.free u = d.free u := by
        rw [Draft.free, Draft.free, hc]
        refine Forest.free_adapt (fun _ _ => rfl) fun x hx hxm t' ht' => ?_
        rw [hheld x hx hxm] at ht'
        cases ht'
        exact hcomponent
      exact hfree ▸ List.Sublist.refl _
    · rw [Draft.outline, hc]
      exact hb.adapt (· == p.place.mark) (by simp) hw _ t children hnode

/-- A selection is behind every part in which nothing is pending. -/
theorem prefix_of_awaits {settled : List Nat} {front before rest : List (Entry Nat)}
    {x : Entry Nat} (hf : front <+: before ++ x :: rest)
    (hn : ∀ y ∈ front, u.awaits settled y.mark y.heading = false)
    (hx : u.awaits settled x.mark x.heading = true) : front <+: before := by
  induction front generalizing before with
  | nil => exact List.nil_prefix
  | cons y front ih =>
    simp only [List.mem_cons, forall_eq_or_imp] at hn
    cases before with
    | nil =>
      obtain ⟨rfl, -⟩ := List.cons_prefix_cons.mp hf
      rw [hn.1] at hx
      cases hx
    | cons z before =>
      obtain ⟨rfl, hr⟩ := List.cons_prefix_cons.mp hf
      exact List.cons_prefix_cons.mpr ⟨rfl, ih hr hn.2⟩

/-- A front is before the selection, and stays a front. -/
theorem Front.step {front : List (Entry Nat)} (hf : u.Front d front) (hd : d.document.Marked)
    (selected : u.pending? d = some p) (expanded : u.expand d p = .ok e) :
    u.Front e front := by
  obtain ⟨before, level, after, t, children, ho, -, hl, hm, -, -, h⟩ :=
    step_cases hd selected expanded
  have hx : u.awaits d.settled p.place.mark (.element t) = true := by
    simp [awaits, hl, hm]
  have hb : front <+: before := prefix_of_awaits (ho ▸ hf.1) hf.2 hx
  rcases h with ⟨-, hs, new, -, he⟩ | ⟨-, hs, -, he⟩
  · refine ⟨he ▸ hb.trans (List.prefix_append _ _), fun x hxf => ?_⟩
    rw [hs]
    exact hf.2 x hxf
  · refine ⟨he ▸ hb.trans (List.prefix_append _ _), fun x hxf => ?_⟩
    rw [hs]
    exact not_awaits_of_append (hf.2 x hxf) _

theorem marked_of_step (hd : d.document.Marked) (selected : u.pending? d = some p)
    (expanded : u.expand d p = .ok e) : e.document.Marked := by
  obtain ⟨before, level, after, t, children, ho, -, -, -, -, -, h⟩ :=
    step_cases hd selected expanded
  have hold : d.document.content.marks = before.map (·.mark) ++
      ((p.place.mark :: children.marks) ++ after.map (·.mark)) := by
    rw [d.marks_eq, ho]
    simp [Forest.marks_outline]
  rcases h with ⟨-, -, new, hnext, he⟩ | ⟨-, -, hnext, he⟩
  · refine hd.of_replaced hold hnext ?_
    rw [e.marks_eq, he]
    simp [Forest.marks_outline]
  · have hsame : e.document.content.marks = d.document.content.marks := by
      rw [hold, e.marks_eq, he]
      simp [Forest.marks_outline, Expansion.center]
    exact ⟨hsame ▸ hd.nodup, by rw [hsame, hnext]; exact hd.below⟩

theorem Ordered.step (h : u.Ordered d) (selected : u.pending? d = some p)
    (expanded : u.expand d p = .ok e) : u.Ordered e := by
  refine ⟨marked_of_step h.marked selected expanded, ?_⟩
  obtain ⟨front, hf, hs⟩ := h.settled
  have hfe := hf.step h.marked selected expanded
  obtain ⟨before, level, after, t, children, ho, hn, hl, hm, -, -, hcases⟩ :=
    step_cases h.marked selected expanded
  have hb : front <+: before := prefix_of_awaits (ho ▸ hf.1) hf.2 (by simp [awaits, hl, hm])
  rcases hcases with ⟨-, hse, -⟩ | ⟨hk, hse, -, he⟩
  · exact ⟨front, hfe, by rw [hse]; exact hs⟩
  · -- the front now reaches up to the element that was just settled
    refine ⟨before ++ [⟨level, p.place.mark, .element t⟩], ⟨⟨_, by simpa using he.symm⟩, ?_⟩, ?_⟩
    · rw [hse]
      intro x hx
      rcases List.mem_append.mp hx with hx | hx
      · exact not_awaits_of_append (hn x hx) _
      · rw [List.mem_singleton.mp hx]
        simp [awaits]
    · rw [hse]
      intro m hm
      rcases List.mem_append.mp hm with hm | hm
      · obtain ⟨x, hx, hxm, hc⟩ := hs m hm
        exact ⟨x, List.mem_append_left _ (hb.subset hx), hxm, hc⟩
      · refine ⟨_, List.mem_append_right _ (List.mem_singleton.mpr rfl),
          (List.mem_singleton.mp hm).symm, t, rfl, ?_⟩
        rw [hl, hk]

theorem Ordered.unsettled (h : u.Ordered d) {before rest : List (Entry Nat)} {x : Entry Nat}
    (ho : d.outline = before ++ x :: rest) (hx : u.awaits d.settled x.mark x.heading = true) :
    ∀ y ∈ rest, y.mark ∉ d.settled := by
  intro y hy hym
  obtain ⟨front, hf, hsettled⟩ := h.settled
  have hfront : front <+: before := prefix_of_awaits (ho ▸ hf.1) hf.2 hx
  obtain ⟨z, hzf, hzm, -⟩ := hsettled y.mark hym
  -- the settled one stands in the front, and no mark stands twice
  have hnodup := h.marked.nodup
  rw [d.marks_eq, ho, List.map_append] at hnodup
  refine (List.nodup_append.mp hnodup).2.2 z.mark ?_ y.mark ?_ hzm
  · exact List.mem_map_of_mem (hfront.subset hzf)
  · exact List.mem_map_of_mem (List.mem_cons_of_mem _ hy)

-- ---------------------------------------------------------------------------
-- Whole runs

theorem Ordered.steps {n : Nat} (hs : u.Steps n d e) (h : u.Ordered d) : u.Ordered e :=
  hs.keeps (fun h selected expanded => h.step selected expanded) h

theorem Front.steps {n : Nat} {front : List (Entry Nat)} (hs : u.Steps n d e) (h : u.Ordered d)
    (hf : u.Front d front) : u.Front e front := by
  induction hs with
  | refl => exact hf
  | next selected expanded _ ih =>
    exact ih (h.step selected expanded) (hf.step h.marked selected expanded)

theorem free_sublist_of_steps {n : Nat} (hs : u.Steps n d e) (h : u.Ordered d) :
    (d.free u).Sublist (e.free u) := by
  induction hs with
  | refl => exact List.Sublist.refl _
  | next selected expanded _ ih =>
    obtain ⟨-, -, -, -, -, -, -, -, -, -, hfree, -⟩ := step_cases h.marked selected expanded
    exact hfree.trans (ih (h.step selected expanded))

theorem Ordered.centers_left (h : u.Ordered d) (hp : u.pending? d = none) :
    ∀ x ∈ d.outline, ∀ t, x.heading = .element t → (u.components.lookup t.name).isSome = true →
      u.IsCenter x ∧ x.mark ∈ d.settled := by
  intro x hx t ht hcomponent
  have hn := not_awaits_of_pending? hp x hx
  have hm : x.mark ∈ d.settled := by
    simpa [awaits, ht, hcomponent] using hn
  obtain ⟨front, hf, hsettled⟩ := h.settled
  obtain ⟨y, hyf, hym, t', ht', hl'⟩ := hsettled x.mark hm
  have hnodup := h.marked.nodup
  rw [d.marks_eq] at hnodup
  obtain rfl := List.inj_on_of_nodup_map hnodup (hf.1.subset hyf) hx hym
  exact ⟨⟨t', ht', hl'⟩, hm⟩

theorem ordered_of_unsettled (hd : d.document.Marked) (hs : d.settled = []) : u.Ordered d :=
  ⟨hd, [], ⟨List.nil_prefix, by simp⟩, by simp [hs]⟩

/-- Along every run a selection has nothing pending before it, and all that stands before it stays
as it is. So settled elements, which are centers, stay and are never inside what is expanded; the
nodes outside components stay too; and when a run ends, only settled centers are left of the
components and a further run changes nothing. -/
theorem run_goes_forward {engine : Engine} {text : String} {document : Document}
    (loaded : Document.load engine.format text = .ok document) (limit : Int) :
    let u := engine.unfolder
    let start : Draft := ⟨document, []⟩
    let run := u.run limit start
    u.Steps run.count start run.draft ∧
    (∀ n d p, u.Steps n start d → u.pending? d = some p →
      ∃ before level rest,
        d.outline = before ++ ⟨level, p.place.mark, p.place.node.heading⟩ :: rest ∧
        (∀ x ∈ before, u.awaits d.settled x.mark x.heading = false) ∧
        p.place.mark ∉ d.settled ∧ (∀ x ∈ rest, x.mark ∉ d.settled) ∧
        ∀ k e, u.Steps k d e → before <+: e.outline) ∧
    (∀ n d, u.Steps n start d → ∀ m ∈ d.settled,
      ∃ front x, front <+: d.outline ∧ x ∈ front ∧ x.mark = m ∧ u.IsCenter x ∧
        ∀ k e, u.Steps k d e → front <+: e.outline ∧ m ∈ e.settled) ∧
    (∀ n d k e, u.Steps n start d → u.Steps k d e → (d.free u).Sublist (e.free u)) ∧
    (run.failure = none →
      (∀ x ∈ run.draft.outline, ∀ t, x.heading = .element t →
        (u.components.lookup t.name).isSome = true →
        u.IsCenter x ∧ x.mark ∈ run.draft.settled) ∧
      ∀ again, u.run again run.draft = ⟨run.draft, 0, [endMessage 0], none⟩) := by
  intro u start run
  have hstart : u.Ordered start := ordered_of_unsettled (Document.marked_of_load loaded) rfl
  obtain ⟨hrun, hend⟩ := steps_of_run u limit start
  refine ⟨hrun, ?_, ?_, ?_, ?_⟩
  · intro n d p hs selected
    have hd := hstart.steps hs
    obtain ⟨before, level, after, t, children, hb, hn, hnode, -, hl, hm⟩ :=
      between_of_pending? selected
    have ho : d.outline = before ++ ⟨level, p.place.mark, p.place.node.heading⟩ ::
      (p.place.node.children.outline (level + 1) ++ after) := hb.outline
    have hx : u.awaits d.settled p.place.mark p.place.node.heading = true := by
      simp [awaits, hnode, Markup.Node.heading, hl, hm]
    refine ⟨before, level, _, ho, hn, hm, hd.unsettled ho hx, ?_⟩
    · intro k e hse
      have hbefore : u.Front d before := ⟨⟨_, ho.symm⟩, hn⟩
      exact (Front.steps hse hd hbefore).1
  · intro n d hs m hm
    have hd := hstart.steps hs
    obtain ⟨front, hf, hsettled⟩ := hd.settled
    obtain ⟨x, hxf, hxm, hc⟩ := hsettled m hm
    refine ⟨front, x, hf.1, hxf, hxm, hc, fun k e hse => ?_⟩
    have hfe := Front.steps hse hd hf
    refine ⟨hfe.1, ?_⟩
    -- a component in a front is settled
    obtain ⟨t, ht, hl⟩ := hc
    have := hfe.2 x hxf
    simpa [awaits, ht, hl, hxm] using this
  · intro n d k e hs hse
    exact free_sublist_of_steps hse (hstart.steps hs)
  · intro hnone
    have hp := hend hnone
    exact ⟨(hstart.steps hrun).centers_left hp, run_of_not_pending hp⟩

theorem run_goes_forward_over_center :
    let engine : Engine := ⟨Settings.standard, ⟨.null, [], []⟩,
      ⟨⟨.int 12, none, none, some "item"⟩, [("center", .center)]⟩⟩
    ∃ document, Document.load engine.format "<center><p></p></center>" = .ok document ∧
      let run := engine.unfolder.run 1 ⟨document, []⟩
      engine.unfolder.Steps run.count ⟨document, []⟩ run.draft ∧
      (run.failure = none → ∀ again,
        engine.unfolder.run again run.draft = ⟨run.draft, 0, [endMessage 0], none⟩) := by
  intro engine
  have hplain : (Forest.element () ⟨"center", [], false⟩
      (.element () ⟨"p", [], false⟩ .nil .nil) .nil).Plain := by decide
  have hread := Format.read_plain hplain none
  obtain ⟨document, hload⟩ : ∃ document,
      Document.load engine.format "<center><p></p></center>" = .ok document := by
    refine ⟨_, bind_eq_ok.mpr ⟨_, hread, rfl⟩⟩
  obtain ⟨hsteps, -, -, -, hend⟩ := run_goes_forward hload 1
  exact ⟨document, hload, hsteps, fun hf => (hend hf).2⟩

end Unfolder

end Mailgrid
