import Mailgrid.Proofs.Text.Lower
import Mailgrid.Proofs.Text.Search

/-!
# Texts without brackets

Brackets open the marked sections that a reader may refuse. Of the ways a text is
changed before it is read none brings a bracket in: so where one stands in what
is read, it is one of the document. `BracketsIf` says this of one text; `b` is
that the document has a bracket.
-/

namespace Mailgrid.Text

/-- Only if `b` does the text have a bracket. -/
def BracketsIf (b : Prop) (s : List Char) : Prop :=
  '[' ∈ s → b

variable {b : Prop} {s t : List Char}

theorem BracketsIf.of_not_mem (h : '[' ∉ s) : BracketsIf b s :=
  fun hm => absurd hm h

theorem BracketsIf.of (h : b) : BracketsIf b s :=
  fun _ => h

theorem BracketsIf.of_subset (h : BracketsIf b s) (hsub : t ⊆ s) : BracketsIf b t :=
  fun hm => h (hsub hm)

@[simp] theorem bracketsIf_nil : BracketsIf b [] :=
  .of_not_mem List.not_mem_nil

@[simp] theorem bracketsIf_append : BracketsIf b (s ++ t) ↔ BracketsIf b s ∧ BracketsIf b t := by
  simp only [BracketsIf, List.mem_append, or_imp]

@[simp] theorem bracketsIf_cons {c : Char} :
    BracketsIf b (c :: s) ↔ (c = '[' → b) ∧ BracketsIf b s := by
  simp only [BracketsIf, List.mem_cons, or_imp, eq_comm]

theorem BracketsIf.between {c : Char} (hc : c ≠ '[') (h : BracketsIf b s) :
    BracketsIf b (c :: s ++ [c]) := by
  simp [hc, h]

theorem BracketsIf.flatMap {α : Type} {l : List α} {f : α → List Char}
    (h : ∀ a ∈ l, BracketsIf b (f a)) : BracketsIf b (l.flatMap f) := by
  intro hm
  obtain ⟨a, ha, hc⟩ := List.mem_flatMap.mp hm
  exact h a ha hc

theorem BracketsIf.intercalate {l : List String} (h : ∀ a ∈ l, BracketsIf b a.toList) :
    BracketsIf b (" ".intercalate l).toList := by
  induction l with
  | nil => simp
  | cons a rest ih =>
    obtain ⟨ha, hrest⟩ := List.forall_mem_cons.mp h
    cases rest with
    | nil => simpa using ha
    | cons c rest =>
      rw [String.intercalate_cons_cons, String.toList_append, String.toList_append,
        bracketsIf_append, bracketsIf_append]
      exact ⟨⟨ha, .of_not_mem (by decide)⟩, ih hrest⟩

/-- A substitution brings no bracket in if none of its values does. -/
theorem BracketsIf.substitute {pattern : (s : List Char) → Option (Match (List Char) s)}
    (hp : ∀ {s m}, pattern s = some m → BracketsIf b s → BracketsIf b m.value ∧ BracketsIf b m.rest)
    (h : BracketsIf b s) : BracketsIf b (substitute pattern s) := by
  induction s using pieces.induct pattern with
  | case1 => rw [substitute_nil]; exact h
  | case2 c rest m hm ih =>
    obtain ⟨hvalue, hrest⟩ := hp hm h
    rw [substitute_of_some hm, bracketsIf_append]
    exact ⟨hvalue, ih hrest⟩
  | case3 c rest hn ih =>
    rw [bracketsIf_cons] at h
    rw [substitute_of_none hn, bracketsIf_cons]
    exact ⟨h.1, ih h.2⟩

theorem BracketsIf.lower (h : BracketsIf b s) : BracketsIf b (lower s) := by
  intro hm
  rcases (of_mem_lower hm).2 with hs | hletter
  · exact h hs
  · exact absurd (hletter.2 (by decide)) (by decide)

end Mailgrid.Text
