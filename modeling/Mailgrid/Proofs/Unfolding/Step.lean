import Mailgrid.Proofs.Markup.Outline
import Mailgrid.Unfolding

/-!
# Steps of an unfolding

One step selects the first pending component and expands it. The lemmas here
read a selection and an expansion back as what they do to the outline of the
document; what holds along a run is derived from them. A run takes as many
steps as it counts.
-/

namespace Mailgrid

open Markup (Entry Forest Heading Node Place Tag)

def Draft.outline (d : Draft) : List (Entry Nat) :=
  d.document.content.outline 0

theorem Draft.marks_eq (d : Draft) : d.document.content.marks = d.outline.map (·.mark) :=
  (Forest.marks_outline d.document.content 0).symm

/-- The nodes that are not inside a component, whether it is settled or not. -/
def Draft.free (u : Unfolder) (d : Draft) : List (Entry Nat) :=
  d.document.content.free (fun t => (u.components.lookup t.name).isSome) 0

namespace Unfolder

/-- Is a node with this mark a component that is not settled? -/
def awaits (u : Unfolder) (settled : List Nat) (mark : Nat) : Heading → Bool
  | .leaf _ _ => false
  | .element t => (u.components.lookup t.name).isSome && !settled.contains mark

/-- Expansions one after the other, each of the component that is selected. -/
inductive Steps (u : Unfolder) : Nat → Draft → Draft → Prop where
  | refl (d : Draft) : Steps u 0 d d
  | next {n : Nat} {d e last : Draft} {p : Pending} (selected : u.pending? d = some p)
      (expanded : u.expand d p = .ok e) (rest : Steps u n e last) : Steps u (n + 1) d last

variable {u : Unfolder} {d e : Draft} {p : Pending}

theorem Steps.keeps {P : Draft → Prop}
    (step : ∀ {d e p}, P d → u.pending? d = some p → u.expand d p = .ok e → P e)
    {n : Nat} (h : u.Steps n d e) (hd : P d) : P e := by
  induction h with
  | refl => exact hd
  | next selected expanded _ ih => exact ih (step hd selected expanded)

theorem Steps.trans {n m : Nat} {last : Draft} (h : u.Steps n d e) (h' : u.Steps m e last) :
    u.Steps (n + m) d last := by
  induction h with
  | refl => rwa [Nat.zero_add]
  | next selected expanded _ ih =>
    rw [Nat.add_right_comm]
    exact .next selected expanded (ih h')

-- ---------------------------------------------------------------------------
-- Selections

theorem isSome_kindOf? (u : Unfolder) (settled : List Nat) (mark : Nat) (node : Node Nat) :
    (u.kindOf? settled mark node).isSome = u.awaits settled mark node.heading := by
  cases node with
  | leaf => rfl
  | element t children =>
    simp only [kindOf?, awaits, Node.heading]
    cases u.components.lookup t.name with
    | none => rfl
    | some kind => cases hm : settled.contains mark <;> simp

/-- What is selected is a component that is not settled, and no node before it is one. -/
theorem between_of_pending? (h : u.pending? d = some p) :
    ∃ before level after t children, d.document.content.Between 0 p.place before level after ∧
      (∀ x ∈ before, u.awaits d.settled x.mark x.heading = false) ∧
      p.place.node = .element t children ∧ p.tag = t.name ∧
      u.components.lookup t.name = some p.kind ∧ p.place.mark ∉ d.settled := by
  unfold pending? at h
  split at h
  · rename_i place hp
    have hw := Forest.wanted_of_place? hp
    obtain ⟨before, level, after, hb, hn⟩ :=
      Forest.between_of_placeAfter? (isSome_kindOf? u d.settled) hp 0
    unfold pendingAt? at h
    split at h
    · cases h
    · rename_i t children hnode
      simp only [Option.map_eq_some_iff] at h
      obtain ⟨kind, hk, rfl⟩ := h
      simp only [kindOf?] at hk
      split at hk
      · rename_i k hl
        split at hk
        · cases hk
        · rename_i hm
          cases hk
          exact ⟨before, level, after, t, children, hb, hn, hnode, rfl, hl, by simpa using hm⟩
      · cases hk
  · cases h

theorem place_of_pending? (h : u.pending? d = some p) :
    d.document.content.place? (fun mark node => (u.kindOf? d.settled mark node).isSome) =
        some p.place ∧
      u.kindOf? d.settled p.place.mark p.place.node = some p.kind := by
  unfold pending? at h
  split at h
  · rename_i place hp
    unfold pendingAt? at h
    split at h
    · cases h
    · rename_i t children hnode
      obtain ⟨kind, hk, rfl⟩ := Option.map_eq_some_iff.mp h
      exact ⟨hp, by rw [hnode, hk]⟩
  · cases h

theorem not_awaits_of_pending? (h : u.pending? d = none) :
    ∀ x ∈ d.outline, u.awaits d.settled x.mark x.heading = false := by
  unfold pending? at h
  split at h
  · rename_i place hp
    have hw := Forest.wanted_of_place? hp
    unfold pendingAt? at h
    split at h
    · rename_i hnode
      simp [hnode, kindOf?] at hw
    · rename_i t children hnode
      simp only [Option.map_eq_none_iff] at h
      simp [hnode, h] at hw
  · rename_i hp
    exact Forest.not_found_of_placeAfter? (isSome_kindOf? u d.settled) hp 0

-- ---------------------------------------------------------------------------
-- Expansions

/-- A component other than the centering one is replaced by nodes with new marks; the centering one
changes what it holds and is settled. -/
theorem expand_cases {t : Tag} {children : Forest Nat} (hn : p.place.node = .element t children)
    (h : u.expand d p = .ok e) :
    (p.kind ≠ .center ∧ ∃ new : Forest Unit, e.settled = d.settled ∧
      e.document.next = (new.number d.document.next).2 ∧ e.document.content =
        d.document.content.replace (· == p.place.mark) (new.number d.document.next).1) ∨
    (p.kind = .center ∧ e.settled = d.settled ++ [p.place.mark] ∧
      e.document.next = d.document.next ∧ e.document.content =
        d.document.content.adapt (· == p.place.mark)
          fun tag _ => (tag, Expansion.center u.rules children)) := by
  simp only [expand, bind_eq_ok] at h
  obtain ⟨expansion, hx, hp⟩ := h
  simp only [Expansion.ofPlace, hn] at hx
  split at hx
  · cases hx
  · split at hx
    · rename_i hk
      cases hx
      cases hp
      exact .inr ⟨by simpa using hk, rfl, rfl, rfl⟩
    · rename_i hk
      simp only [bind_eq_ok, pure_eq_ok] at hx
      obtain ⟨template, -, rfl⟩ := hx
      simp only [put, Document.replace, bind_eq_ok, pure_eq_ok, Prod.exists] at hp
      obtain ⟨document, topMarks, ⟨new, hr, hd⟩, rfl⟩ := hp
      cases hd
      exact .inl ⟨fun hc => hk (by rw [hc]), new, rfl, rfl, rfl⟩

theorem ofPlace_of_template {rules : Rules} {format : Format} {kind : Component}
    {place : Place Nat} {t : Tag} {children : Forest Nat} (hn : place.node = .element t children)
    (hname : t.name.isEmpty = false) (hk : kind ≠ .center) {template : Template}
    (ht : Expansion.template rules format (some kind) t children place.before place.after =
      .ok template) :
    Expansion.ofPlace rules format (some kind) place = .ok (.markup template.write) := by
  simp only [Expansion.ofPlace, hn, hname, Bool.false_eq_true, if_false]
  split
  · rename_i hcenter
    exact absurd (Option.some.inj hcenter) hk
  · rw [ht]
    rfl

theorem expand_of_read {t : Tag} {children : Forest Nat} (hn : p.place.node = .element t children)
    (hname : t.name.isEmpty = false) (hk : p.kind ≠ .center) {template : Template}
    (ht : Expansion.template u.rules d.document.format (some p.kind) t children p.place.before
      p.place.after = .ok template)
    {new : Forest Unit} (hr : d.document.format.read template.write = .ok new) :
    u.expand d p = .ok ⟨⟨d.document.format, d.document.spelling,
      d.document.content.replace (· == p.place.mark) (new.number d.document.next).1,
      (new.number d.document.next).2⟩, d.settled⟩ := by
  rw [expand, ofPlace_of_template hn hname hk ht, ok_bind, put, Document.replace, hr]
  rfl

theorem expand_of_center {t : Tag} {children : Forest Nat}
    (hn : p.place.node = .element t children) (hname : t.name.isEmpty = false)
    (hk : p.kind = .center) : u.expand d p = .ok ⟨d.document.adapt p.place.mark fun tag _ =>
      (tag, Expansion.center u.rules children), d.settled ++ [p.place.mark]⟩ := by
  rw [expand, Expansion.ofPlace, hn, hk]
  simp only [hname]
  rfl

-- ---------------------------------------------------------------------------
-- Runs

theorem steps_of_runFrom (u : Unfolder) (limit : Int) (count left : Nat) (d : Draft) :
    ∃ n, (u.runFrom limit count left d).count = count + n ∧
      u.Steps n d (u.runFrom limit count left d).draft ∧
      ((u.runFrom limit count left d).failure = none →
        u.pending? (u.runFrom limit count left d).draft = none) := by
  induction left generalizing count d with
  | zero =>
    unfold runFrom
    split
    · rename_i hp; exact ⟨0, rfl, .refl d, fun _ => hp⟩
    · exact ⟨0, rfl, .refl d, fun hf => nomatch hf⟩
  | succ left ih =>
    unfold runFrom
    split
    · rename_i hp; exact ⟨0, rfl, .refl d, fun _ => hp⟩
    · rename_i p hp
      cases he : u.expand d p with
      | error failure => exact ⟨0, rfl, .refl d, fun hf => nomatch hf⟩
      | ok e =>
        obtain ⟨n, hc, hs, hf⟩ := ih (count + 1) e
        exact ⟨n + 1, by simp only [hc]; omega, .next hp he hs, hf⟩

/-- A run takes as many steps as it counts, and if it does not fail nothing is left to expand. -/
theorem steps_of_run (u : Unfolder) (limit : Int) (d : Draft) :
    u.Steps (u.run limit d).count d (u.run limit d).draft ∧
      ((u.run limit d).failure = none → u.pending? (u.run limit d).draft = none) := by
  obtain ⟨n, hc, hs, hf⟩ := steps_of_runFrom u limit 0 limit.toNat d
  rw [Nat.zero_add] at hc
  exact ⟨by unfold run; rw [hc]; exact hs, hf⟩

theorem run_of_not_pending (h : u.pending? d = none) (limit : Int) :
    u.run limit d = ⟨d, 0, [endMessage 0], none⟩ := by
  unfold run runFrom
  simp [h]

theorem run_of_last (hp : u.pending? d = some p) (expanded : u.expand d p = .ok e)
    (hn : u.pending? e = none) {limit : Int} (hlimit : 0 < limit) :
    (u.run limit d).failure = none ∧ (u.run limit d).draft = e := by
  obtain ⟨left, hleft⟩ : ∃ left, limit.toNat = left + 1 := ⟨limit.toNat - 1, by omega⟩
  have hrest : u.runFrom limit (0 + 1) left e = ⟨e, 0 + 1, [endMessage (0 + 1)], none⟩ := by
    unfold runFrom
    rw [hn]
  rw [run, hleft, runFrom, hp]
  simp only [expanded, hrest]
  exact ⟨trivial, trivial⟩

end Unfolder

end Mailgrid
