import Mailgrid.Proofs.Markup.Elements
import Mailgrid.Proofs.Unfolding.AnyOrder

/-!
# Changes inside one element

Where marks stand once only, what is in an element is found by searching the
element alone, and changed by changing it alone: the siblings that a node has in
the document are those it has in there.
-/

namespace Mailgrid

open Markup (Element Forest Node Place Tag)

namespace Markup.Forest

variable {α : Type} {f : Forest α} {e : Element α} {m : α}

theorem Plain.of_mem_elements (h : f.Plain) (he : e ∈ f.elements) :
    e.tag.Plain ∧ e.children.Plain := by
  induction f with
  | nil => cases he
  | leaf x kind content next ih =>
    cases kind with
    | text => exact ih h.2.2 he
    | _ => exact absurd h id
  | element x t children next _ ih =>
    obtain ⟨htag, -, hchildren, hnext⟩ := h
    rcases List.mem_cons.mp he with rfl | he
    · exact ⟨htag, hchildren⟩
    · exact ih hnext he

section
variable [BEq α] [LawfulBEq α]

theorem placeAfter?_of_not_mem (hm : m ∉ f.marks) (around : List (Element α)) :
    f.placeAfter? (fun x _ => x == m) around = none := by
  induction f generalizing around with
  | nil => rfl
  | leaf x kind content next ih =>
    simp only [marks, List.mem_cons, not_or] at hm
    rw [placeAfter?, if_neg (by simpa using Ne.symm hm.1), ih hm.2]
  | element x t children next ihc ih =>
    simp only [marks, List.mem_cons, List.mem_append, not_or] at hm
    rw [placeAfter?, if_neg (by simpa using Ne.symm hm.1), ihc hm.2.1]
    exact ih hm.2.2 _

theorem exists_place_of_mem (hm : m ∈ f.marks) (around : List (Element α)) :
    ∃ place, f.placeAfter? (fun x _ => x == m) around = some place := by
  induction f generalizing around with
  | nil => cases hm
  | leaf x kind content next ih =>
    rw [placeAfter?]
    split
    · exact ⟨_, rfl⟩
    · rename_i hx
      exact ih ((List.mem_cons.mp hm).resolve_left fun h => hx (beq_iff_eq.mpr h.symm)) around
  | element x t children next ihc ih =>
    rw [placeAfter?]
    split
    · exact ⟨_, rfl⟩
    · rename_i hx
      have hm := (List.mem_cons.mp hm).resolve_left fun h => hx (beq_iff_eq.mpr h.symm)
      split
      · exact ⟨_, rfl⟩
      · rename_i hnone
        refine ih ((List.mem_append.mp hm).resolve_left fun hm => ?_) _
        obtain ⟨place, hplace⟩ := ihc hm []
        cases hnone.symm.trans hplace

theorem placeAfter?_inside (hn : f.marks.Nodup) (he : e ∈ f.descendants)
    (hm : m ∈ e.children.marks) (around : List (Element α)) :
    f.placeAfter? (fun x _ => x == m) around =
      e.children.placeAfter? (fun x _ => x == m) [] := by
  obtain ⟨place, hplace⟩ := exists_place_of_mem hm []
  induction f generalizing around with
  | nil => cases he
  | leaf x kind content next ih =>
    obtain ⟨hx, hnext⟩ := List.nodup_cons.mp hn
    have hmem : m ∈ next.marks := mem_marks_of_mem (f := next) he hm
    have hne : (x == m) = false := beq_false_of_ne fun h => hx (h ▸ hmem)
    rw [placeAfter?, if_neg (by rw [hne]; exact Bool.false_ne_true)]
    exact ih hnext he around
  | element x t children next ihc ih =>
    simp only [marks, List.nodup_cons, List.mem_append, not_or, List.nodup_append] at hn
    obtain ⟨⟨hxc, hxn⟩, hchildren, hnext, hdisjoint⟩ := hn
    simp only [descendants, List.mem_cons, List.mem_append] at he
    rw [placeAfter?]
    rcases he with rfl | he | he
    · have hne : (x == m) = false := beq_false_of_ne fun h => hxc (h ▸ hm)
      rw [if_neg (by rw [hne]; exact Bool.false_ne_true), hplace]
    · have hmem : m ∈ children.marks := mem_marks_of_mem he hm
      have hne : (x == m) = false := beq_false_of_ne fun h => hxc (h ▸ hmem)
      rw [if_neg (by rw [hne]; exact Bool.false_ne_true), ihc hchildren he [], hplace]
    · have hmem : m ∈ next.marks := mem_marks_of_mem (f := next) he hm
      have hne : (x == m) = false := beq_false_of_ne fun h => hxn (h ▸ hmem)
      have hnot : m ∉ children.marks := fun h => hdisjoint m h m hmem rfl
      rw [if_neg (by rw [hne]; exact Bool.false_ne_true), placeAfter?_of_not_mem hnot]
      exact ih hnext he _

theorem mem_replace_inside (hn : f.marks.Nodup) (he : e ∈ f.descendants)
    (hm : m ∈ e.children.marks) (new : Forest α) :
    { e with children := e.children.replace (· == m) new } ∈
      (f.replace (· == m) new).descendants := by
  induction f with
  | nil => cases he
  | leaf x kind content next ih =>
    obtain ⟨hx, hnext⟩ := List.nodup_cons.mp hn
    have hmem : m ∈ next.marks := mem_marks_of_mem (f := next) he hm
    have hne : x ≠ m := fun h => hx (h ▸ hmem)
    rw [replace, if_neg (by simpa using hne)]
    exact ih hnext he
  | element x t children next ihc ih =>
    simp only [marks, List.nodup_cons, List.mem_append, not_or, List.nodup_append] at hn
    obtain ⟨⟨hxc, hxn⟩, hchildren, hnext, -⟩ := hn
    simp only [descendants, List.mem_cons, List.mem_append] at he
    have hmem : m ∈ children.marks ++ next.marks := by
      rw [List.mem_append]
      rcases he with rfl | he | he
      · exact .inl hm
      · exact .inl (mem_marks_of_mem he hm)
      · exact .inr (mem_marks_of_mem he hm)
    have hne : x ≠ m := fun h => (List.mem_append.mp hmem).elim (h ▸ hxc) (h ▸ hxn)
    rw [replace, if_neg (by simpa using hne)]
    simp only [descendants, List.mem_cons, List.mem_append]
    rcases he with rfl | he | he
    · exact .inl rfl
    · exact .inr (.inl (ihc hchildren he))
    · exact .inr (.inr (ih hnext he))

end

end Markup.Forest

end Mailgrid
