import Mailgrid.Proofs.Expansion.Refusal
import Mailgrid.Proofs.Unfolding.Expanded
import Mailgrid.Proofs.Unfolding.Order

/-!
# Runs that are refused

A run stops at its limit or because markup that was generated is refused, and
then there is a bracket in the document. What each step keeps is that the
document has brackets only as `b` allows, and no list of words.
-/

namespace Mailgrid

open Markup (AttributeValue Element Forest Node Place Tag)
open Text (BracketsIf)

variable {b : Prop}

-- ---------------------------------------------------------------------------
-- Changes of a forest

namespace Markup.Forest

theorem Within.number {f : Forest α} (h : f.Within b) (next : Nat) :
    (f.number next).1.Within b := by
  induction f generalizing next with
  | nil => trivial
  | leaf m kind content rest ih => exact ⟨h.1, h.2.1, ih h.2.2 _⟩
  | element m tag children rest ihc ih => exact ⟨h.1, ihc h.2.1 _, ih h.2.2 _⟩

theorem Within.leading {f : Forest α} (h : f.Within b) : f.leading.Within b := by
  induction f with
  | nil => trivial
  | leaf m kind content next ih =>
    refine ⟨fun hk => h.1 ?_, h.2.1, ih h.2.2⟩
    split at hk
    · cases hk
    · exact hk
  | element m tag children next _ ih => exact ⟨h.1, h.2.1, ih h.2.2⟩

theorem Within.replace {f new : Forest α} (h : f.Within b) (hn : new.Within b)
    (wanted : α → Bool) : (f.replace wanted new).Within b := by
  induction f with
  | nil => trivial
  | leaf m kind content next ih =>
    rw [Forest.replace]
    split
    · exact within_append.mpr ⟨hn, h.2.2⟩
    · exact ⟨h.1, h.2.1, ih h.2.2⟩
  | element m tag children next ihc ih =>
    rw [Forest.replace]
    split
    · exact within_append.mpr ⟨hn, h.2.2⟩
    · exact ⟨h.1, ihc h.2.1, ih h.2.2⟩

theorem Within.adapt {f children : Forest α} (h : f.Within b) (hc : children.Within b)
    (wanted : α → Bool) : (f.adapt wanted fun tag _ => (tag, children)).Within b := by
  induction f with
  | nil => trivial
  | leaf m kind content next ih => exact ⟨h.1, h.2.1, ih h.2.2⟩
  | element m tag old next ihc ih =>
    rw [Forest.adapt]
    split
    · exact ⟨h.1, hc, h.2.2⟩
    · exact ⟨h.1, ihc h.2.1, ih h.2.2⟩

section
variable {change : Tag → Tag} (hchange : ∀ {t : Tag}, t.Within b → (change t).Within b)
include hchange

theorem Within.mapTop {f : Forest α} (h : f.Within b) : (f.mapTop change).Within b := by
  induction f with
  | nil => trivial
  | leaf m kind content next ih => exact ⟨h.1, h.2.1, ih h.2.2⟩
  | element m tag children next _ ih => exact ⟨hchange h.1, h.2.1, ih h.2.2⟩

theorem Within.mapTags {f : Forest α} (h : f.Within b) : (f.mapTags change).Within b := by
  induction f with
  | nil => trivial
  | leaf m kind content next ih => exact ⟨h.1, h.2.1, ih h.2.2⟩
  | element m tag children next ihc ih => exact ⟨hchange h.1, ihc h.2.1, ih h.2.2⟩

end

theorem within_of_placeAfter? {wanted : α → Node α → Bool} {f : Forest α} (h : f.Within b)
    {before : List (Element α)} {place : Place α} (hp : f.placeAfter? wanted before = some place)
    {t : Tag} {children : Forest α} (hn : place.node = .element t children) :
    t.Within b ∧ children.Within b := by
  induction f generalizing before with
  | nil => cases hp
  | leaf m kind content next ih =>
    rw [placeAfter?] at hp
    split at hp
    · cases hp
      cases hn
    · exact ih h.2.2 hp
  | element m tag inner next ihc ih =>
    rw [placeAfter?] at hp
    split at hp
    · cases hp
      cases hn
      exact ⟨h.1, h.2.1⟩
    · split at hp
      · rename_i hc
        cases hp
        exact ihc h.2.1 hc
      · exact ih h.2.2 hp

end Markup.Forest

theorem Markup.Tag.Within.addClass {t : Tag} (h : t.Within b) {name : String}
    (hn : '[' ∉ name.toList) : (t.addClass name).Within b := by
  unfold Tag.addClass
  split
  · exact h
  · refine h.set (.of_not_mem (by decide)) (BracketsIf.intercalate ?_)
    exact List.forall_mem_append.mpr ⟨h.classes, List.forall_mem_singleton.mpr (.of_not_mem hn)⟩

theorem Expansion.within_center (rules : Rules) {f : Forest α} (h : f.Within b) :
    (center rules f).Within b := by
  refine Forest.Within.mapTags (fun ht => ?_) (Forest.Within.mapTop (fun ht => ?_) h)
  · split
    · exact ht.addClass (by decide)
    · exact ht
  · have hcenter : '[' ∉ "center".toList := by decide
    have halign : (AttributeValue.text "center").Within b := BracketsIf.of_not_mem hcenter
    exact (ht.set (.of_not_mem (by decide)) halign).addClass (by decide)

-- ---------------------------------------------------------------------------
-- Documents

theorem Format.within_read {text : String} (h : BracketsIf b text.toList) :
    Yields b (Forest.Within b) (standard.read text) := by
  rw [read_standard]
  refine Markup.within_parse (not_mem_protectedChars text) (.flatMap fun c hc => ?_)
  split
  · exact .of_not_mem (by decide)
  · exact h.of_subset (by simpa using hc)

def Document.Within (b : Prop) (d : Document) : Prop :=
  d.format = Format.standard ∧ d.content.Within b

theorem Document.within_load {text : String} (h : BracketsIf b text.toList) :
    Yields b (Document.Within b) (load Format.standard text) :=
  (Format.within_read h).bind fun hf => .ok ⟨rfl, hf.leading.number 0⟩

theorem Document.Within.replace {d : Document} (h : d.Within b) (mark : Nat) {markup : String}
    (hm : BracketsIf b markup.toList) :
    Yields b (fun replaced => replaced.1.Within b) (d.replace mark markup) := by
  have hread := Format.within_read hm
  rw [← h.1] at hread
  exact hread.bind fun hf => .ok ⟨h.1, h.2.replace (hf.number d.next) (· == mark)⟩

-- ---------------------------------------------------------------------------
-- Runs

variable {width : Int} {d : Draft}

theorem Unfolder.within_expand (h : d.document.Within b) {p : Pending}
    (hp : (standard width).pending? d = some p) :
    Yields b (fun e => e.document.Within b) ((standard width).expand d p) := by
  obtain ⟨-, -, -, t, children, -, -, hn, -, hname, -⟩ := between_of_pending? hp
  obtain ⟨ht, hc⟩ := Forest.within_of_placeAfter? h.2 (place_of_pending? hp).1 hn
  have hnamed := Component.isEmpty_of_named? hname
  have htemplate := Expansion.within_template ht width p.kind hc p.place.before p.place.after
  rw [expand, h.1, Expansion.ofPlace, hn]
  simp only [hnamed, Bool.false_eq_true, if_false]
  split
  · exact .ok ⟨h.1, h.2.adapt (Expansion.within_center _ hc) (· == p.place.mark)⟩
  · have hmarkup : Yields b (fun x => ∃ text, x = Expansion.markup text ∧ BracketsIf b text.toList)
        (Expansion.template (standard width).rules Format.standard (some p.kind) t children
          p.place.before p.place.after >>= fun filled => pure (.markup filled.write)) :=
      htemplate.bind fun hfilled => .ok ⟨_, rfl, hfilled.write⟩
    refine hmarkup.bind fun hx => ?_
    obtain ⟨text, rfl, htext⟩ := hx
    exact (h.replace p.place.mark htext).bind fun hreplaced => .ok hreplaced

/-- A run comes to its end or to its limit, or it is refused. -/
theorem Unfolder.within_runFrom (limit : Int) (count left : Nat) (h : d.document.Within b) :
    let run := (standard width).runFrom limit count left d
    run.failure = none ∧ run.draft.document.Within b ∨
      (∃ tag, run.failure = some (.expansionLimit limit tag)) ∨
      run.failure = some .refusedMarkup ∧ b := by
  induction left generalizing count d with
  | zero =>
    unfold runFrom
    split
    · exact .inl ⟨rfl, h⟩
    · exact .inr (.inl ⟨_, rfl⟩)
  | succ left ih =>
    unfold runFrom
    split
    · exact .inl ⟨rfl, h⟩
    · rename_i p hp
      obtain ⟨e, he, hwithin⟩ | ⟨he, hb⟩ := within_expand h hp
      · rw [he]
        exact ih (count + 1) hwithin
      · rw [he]
        exact .inr (.inr ⟨rfl, hb⟩)

end Mailgrid
