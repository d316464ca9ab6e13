import Mailgrid.Markup.ClassList
import Mailgrid.Proofs.Markup.Plain
import Mailgrid.Proofs.Text.Words

/-!
# Classes of plain tags

Classes joined with spaces list the words of each, and the classes that a plain
tag lists are words. Neither quotes nor ampersands come into a value by joining.
-/

namespace Mailgrid.Markup

-- ---------------------------------------------------------------------------
-- Words

theorem wordsOf_append (a b : String) : wordsOf (a ++ " " ++ b) = wordsOf a ++ wordsOf b := by
  have h : (a ++ " " ++ b).toList = a.toList ++ ' ' :: b.toList := by simp
  rw [wordsOf, h, Text.words_append_blank a.toList rfl, List.map_append]
  rfl

theorem wordsOf_intercalate (l : List String) : wordsOf (" ".intercalate l) = l.flatMap wordsOf := by
  induction l with
  | nil => rfl
  | cons a rest ih =>
    cases rest with
    | nil => simp
    | cons b rest => rw [String.intercalate_cons_cons, wordsOf_append, ih, ← List.flatMap_cons]

theorem wordsOf_of_mem {s word : String} (h : word ∈ wordsOf s) : wordsOf word = [word] := by
  obtain ⟨w, hw, rfl⟩ := List.mem_map.mp h
  obtain ⟨hne, hchars⟩ := Text.of_mem_words hw
  rw [wordsOf, String.toList_ofList, Text.words_of_not_blank (fun c hc => (hchars c hc).1) hne]
  rfl

-- ---------------------------------------------------------------------------
-- Values without quotes

/-- Neither double quotes nor ampersands. -/
def Quotable (s : String) : Prop :=
  ∀ c ∈ s.toList, c ≠ '"' ∧ c ≠ '&'

instance (s : String) : Decidable (Quotable s) :=
  inferInstanceAs (Decidable (∀ _ ∈ _, _))

theorem isLegibleValue_text {s : String} : isLegibleValue (.text s) = true ↔ Quotable s := by
  simp only [isLegibleValue, Bool.and_eq_true, Bool.not_eq_true', List.contains_eq_mem,
    decide_eq_false_iff_not, Quotable]
  refine ⟨fun h c hc => ⟨?_, ?_⟩, fun h => ⟨fun hm => (h _ hm).1 rfl, fun hm => (h _ hm).2 rfl⟩⟩
  · rintro rfl; exact h.1 hc
  · rintro rfl; exact h.2 hc

theorem Quotable.append {a b : String} (ha : Quotable a) (hb : Quotable b) :
    Quotable (a ++ b) := by
  intro c hc
  rw [String.toList_append, List.mem_append] at hc
  exact hc.elim (ha c) (hb c)

theorem of_intercalate {V : String → Prop} (hempty : V "") (hspace : V " ")
    (happend : ∀ {a b}, V a → V b → V (a ++ b)) {l : List String} (h : ∀ s ∈ l, V s) :
    V (" ".intercalate l) := by
  induction l with
  | nil => exact hempty
  | cons a rest ih =>
    obtain ⟨ha, hrest⟩ := List.forall_mem_cons.mp h
    cases rest with
    | nil => simpa using ha
    | cons b rest =>
      rw [String.intercalate_cons_cons]
      exact happend (happend ha hspace) (ih hrest)

theorem Quotable.intercalate {l : List String} (h : ∀ s ∈ l, Quotable s) :
    Quotable (" ".intercalate l) :=
  of_intercalate (by decide) (by decide) Quotable.append h

theorem Quotable.of_mem_wordsOf {s word : String} (h : Quotable s) (hw : word ∈ wordsOf s) :
    Quotable word := by
  obtain ⟨w, hmem, rfl⟩ := List.mem_map.mp hw
  intro c hc
  rw [String.toList_ofList] at hc
  exact h c ((Text.of_mem_words hmem).2 c hc).2

-- ---------------------------------------------------------------------------
-- Plain tags

section
variable {t : Tag}

theorem Tag.Plain.exists_text (h : t.Plain) {name : String} {value : AttributeValue}
    (hv : t.get? name = some value) : ∃ s, value = .text s ∧ Quotable s := by
  obtain ⟨-, -, hattributes, -⟩ := h
  obtain ⟨_, _, hsplit, -⟩ := List.lookup_eq_some_iff.mp hv
  have hl := (hattributes (name, value) (by simp [hsplit])).2
  cases value with
  | text s => exact ⟨s, rfl, isLegibleValue_text.mp hl⟩
  | _ => cases hl

theorem Tag.Plain.classes (h : t.Plain) :
    t.classes.flatMap wordsOf = t.classes ∧ ∀ c ∈ t.classes, Quotable c := by
  unfold Tag.classes
  cases hv : t.get? "class" with
  | none => exact ⟨rfl, nofun⟩
  | some value =>
    obtain ⟨s, rfl, hs⟩ := h.exists_text hv
    refine ⟨?_, fun c hc => hs.of_mem_wordsOf hc⟩
    change (wordsOf s).flatMap wordsOf = wordsOf s
    exact (List.flatMap_congr fun c hc => wordsOf_of_mem hc).trans (List.flatMap_singleton' _)

theorem Tag.Plain.filled (h : t.Plain) {name s : String} (hs : t.filled? name = some s) :
    Quotable s := by
  cases hv : t.get? name with
  | none => simp [Tag.filled?, hv] at hs
  | some value =>
    obtain ⟨v, rfl, hq⟩ := h.exists_text hv
    simp only [Tag.filled?, hv, Option.ite_none_left_eq_some, Option.some.injEq] at hs
    obtain ⟨-, rfl⟩ := hs
    exact hq

end

end Mailgrid.Markup
