import Mailgrid.Proofs.Markup.Passage
import Mailgrid.Proofs.VoidElement.Local

/-!
# Names of void elements

The name of a void element may be spelled in any case, and with the few foreign
letters that count as its own. No blank, no slash and no angle bracket is like
one of these, so a name ends where such a character comes.
-/

namespace Mailgrid.VoidElement

open Mailgrid.Markup (isLoose)
open Mailgrid.Text (isBlank foldKey isLike spelling?)

variable {s t name : List Char}

/-- No letter of a void element's name, in any spelling. -/
def isForeign (c : Char) : Bool :=
  isLoose c || c == '<' || c == '>'

theorem foldKey_of_isForeign {c : Char} (h : isForeign c = true) : foldKey c = c := by
  have hforeign : ∀ d ∈ ['\u212a', 'İ'], isForeign d = false := by decide
  have hkelvin : c ≠ '\u212a' := fun he => by
    rw [he, hforeign _ (by decide)] at h
    cases h
  have hdotted : c ≠ 'İ' := fun he => by
    rw [he, hforeign _ (by decide)] at h
    cases h
  rw [foldKey, if_neg hkelvin, if_neg hdotted]
  refine dif_neg ?_
  simp only [isForeign, isLoose, isBlank, Bool.or_eq_true, Bool.and_eq_true, decide_eq_true_eq,
    beq_iff_eq] at h
  simp only [ge_iff_le, UInt32.le_iff_toNat_le]
  have hval : c.toNat = c.val.toNat := rfl
  have hfirst : 'A'.val.toNat = 65 := rfl
  have hlast : 'Z'.val.toNat = 90 := rfl
  rcases h with ((h | rfl) | rfl) | rfl
  · omega
  all_goals decide

theorem not_isLike_of_isForeign {c w : Char} (hc : isForeign c = true) (hw : isForeign w = false) :
    isLike w c = false := by
  have hspecial : ∀ d ∈ ['ſ', 'ı'], isForeign d = false := by decide
  cases hlike : isLike w c with
  | false => rfl
  | true =>
    have hkey := foldKey_of_isLike hlike
    rw [foldKey_of_isForeign hc] at hkey
    rcases hkey with rfl | rfl | rfl
    · rw [hw] at hc
      cases hc
    · rw [hspecial _ (by decide)] at hc
      cases hc
    · rw [hspecial _ (by decide)] at hc
      cases hc

theorem not_isLike_foreign {c : Char} (h : isForeign c = true) :
    ∀ word ∈ names, ∀ w ∈ word.toList, isLike w c = false := by
  have hletters : ∀ word ∈ names, ∀ w ∈ word.toList, isForeign w = false := by decide
  exact fun word hword w hw => not_isLike_of_isForeign h (hletters word hword w hw)

/-- What comes next is nothing, or no letter. -/
def EndsName (s : List Char) : Prop :=
  ∀ c ∈ s.head?, isForeign c = true

theorem spelling?_endsName {word : List Char}
    (hw : ∀ w ∈ word, ∀ c, isForeign c = true → isLike w c = false) (hs : EndsName s) :
    spelling? word (t ++ s) = (spelling? word t).map fun (name, rest) => (name, rest ++ s) := by
  induction word generalizing t with
  | nil => rfl
  | cons w word ih =>
    obtain ⟨hne, hword⟩ := List.forall_mem_cons.mp hw
    cases t with
    | nil =>
      cases s with
      | nil => rfl
      | cons c s =>
        have hc := hne c (hs c rfl)
        simp [spelling?, hc]
    | cons c t =>
      simp only [List.cons_append, spelling?]
      split
      · simp [ih hword, Function.comp_def]
      · rfl

theorem spelledName?_endsName (hs : EndsName s) (t : List Char) :
    spelledName? (t ++ s) = (spelledName? t).map fun (name, rest) => (name, rest ++ s) := by
  have hall : ∀ word ∈ names, spelling? word.toList (t ++ s) =
      (spelling? word.toList t).map fun (name, rest) => (name, rest ++ s) := fun word hword =>
    spelling?_endsName (fun w hw c hc => not_isLike_foreign hc word hword w hw) hs
  unfold spelledName?
  generalize names = known at hall
  induction known with
  | nil => rfl
  | cons word known ih =>
    obtain ⟨hword, hknown⟩ := List.forall_mem_cons.mp hall
    rw [List.findSome?_cons, List.findSome?_cons, hword]
    cases spelling? word.toList t with
    | none => exact ih hknown
    | some found => rfl

/-- The name of a void element in some spelling. -/
def IsVoidName (name : List Char) : Prop :=
  spelledName? name = some (name, [])

theorem spelledName?_iff (hs : EndsName s) :
    spelledName? (name ++ s) = some (name, s) ↔ IsVoidName name := by
  rw [spelledName?_endsName hs, IsVoidName]
  constructor
  · intro h
    obtain ⟨⟨found, rest⟩, hfound, he⟩ := Option.map_eq_some_iff.mp h
    obtain ⟨rfl, hrest⟩ := Prod.mk.inj he
    obtain rfl := List.append_left_eq_self.mp hrest
    exact hfound
  · intro h
    rw [h]
    rfl

theorem letters_of_spelledName? (h : spelledName? s = some (name, t)) :
    name ≠ [] ∧ ∀ c ∈ name, isForeign c = false ∧ ∀ d, isForeign d = true → foldKey c ≠ foldKey d := by
  obtain ⟨word, hword, hspelled⟩ := List.exists_of_findSome?_eq_some h
  have hlike := Text.exists_isLike_of_spelling? hspelled
  have hne : ∀ word ∈ names, word.toList ≠ [] := by decide
  have hkeys : ∀ word ∈ names, ∀ w ∈ word.toList, isForeign w = false := by decide
  have hspecial : ∀ d ∈ ['ſ', 'ı'], isForeign d = false := by decide
  constructor
  · rintro rfl
    have hlength := (Text.length_of_spelling? hspelled)
    rw [hlength.2, List.nil_append] at hlength
    exact hne word hword (List.eq_nil_of_length_eq_zero (by omega))
  · intro c hc
    obtain ⟨w, hw, hwc⟩ := hlike c hc
    constructor
    · cases hforeign : isForeign c with
      | false => rfl
      | true =>
        rw [not_isLike_foreign hforeign word hword w hw] at hwc
        cases hwc
    · intro d hd heq
      rw [foldKey_of_isForeign hd] at heq
      rcases foldKey_of_isLike hwc with he | he | he
      · rw [← heq, he, hkeys word hword w hw] at hd
        cases hd
      · rw [← heq, he, hspecial _ (by decide)] at hd
        cases hd
      · rw [← heq, he, hspecial _ (by decide)] at hd
        cases hd

theorem IsVoidName.letters (h : IsVoidName name) :
    name ≠ [] ∧ ∀ c ∈ name, isForeign c = false ∧ ∀ d, isForeign d = true → foldKey c ≠ foldKey d :=
  letters_of_spelledName? h

end Mailgrid.VoidElement
