import Mailgrid.Document

/-!
# Marks of documents

No two nodes of a document have the same mark, and no node has a mark that is
still to be given.
-/

namespace Mailgrid

open Markup (Forest)

structure Document.Marked (d : Document) : Prop where
  nodup : d.content.marks.Nodup
  below : ∀ m ∈ d.content.marks, m < d.next

namespace Markup.Forest

theorem nodup_marks_number (f : Forest α) (next : Nat) : (f.number next).1.marks.Nodup := by
  rw [(f.marks_number next).1]
  exact List.nodup_range' 1 (by decide)

theorem mem_marks_number {f : Forest α} {next m : Nat} (h : m ∈ (f.number next).1.marks) :
    next ≤ m ∧ m < (f.number next).2 := by
  rw [(f.marks_number next).1, List.mem_range'_1] at h
  rw [(f.marks_number next).2]
  exact h

end Markup.Forest

namespace Document

theorem marked_of_load {format : Format} {text : String} {d : Document}
    (h : load format text = .ok d) : d.Marked := by
  simp only [load, read, bind_eq_ok, pure_eq_ok] at h
  obtain ⟨f, -, rfl⟩ := h
  exact ⟨Forest.nodup_marks_number _ _, fun m hm => (Forest.mem_marks_number hm).2⟩

theorem Marked.of_replaced {d e : Document} {before replaced after : List Nat} {new : Forest Unit}
    (hd : d.Marked) (hold : d.content.marks = before ++ (replaced ++ after))
    (hnext : e.next = (new.number d.next).2)
    (hnew : e.content.marks = before ++ ((new.number d.next).1.marks ++ after)) : e.Marked := by
  obtain ⟨hnodup, hbelow⟩ := hd
  rw [hold] at hnodup hbelow
  simp only [List.nodup_append, List.mem_append] at hnodup hbelow
  have hfresh : ∀ m ∈ (new.number d.next).1.marks, d.next ≤ m ∧ m < e.next := by
    rw [hnext]
    exact fun m hm => Forest.mem_marks_number hm
  have hle : d.next ≤ e.next := by
    rw [hnext, (new.marks_number d.next).2]
    exact Nat.le_add_right _ _
  refine ⟨?_, ?_⟩
  · rw [hnew]
    simp only [List.nodup_append, List.mem_append]
    refine ⟨hnodup.1, ⟨Forest.nodup_marks_number _ _, hnodup.2.1.2.1, ?_⟩, ?_⟩
    · rintro a ha b hb rfl
      exact Nat.not_lt_of_le (hfresh a ha).1 (hbelow a (.inr (.inr hb)))
    · rintro a ha b (hb | hb) rfl
      · exact Nat.not_lt_of_le (hfresh a hb).1 (hbelow a (.inl ha))
      · exact hnodup.2.2 a ha a (.inr hb) rfl
  · rw [hnew]
    intro m hm
    simp only [List.mem_append] at hm
    rcases hm with hm | hm | hm
    · exact Nat.lt_of_lt_of_le (hbelow m (.inl hm)) hle
    · exact (hfresh m hm).2
    · exact Nat.lt_of_lt_of_le (hbelow m (.inr (.inr hm))) hle

end Document

end Mailgrid
