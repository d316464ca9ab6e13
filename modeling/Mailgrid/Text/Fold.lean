/-!
# Letters alike but for case

A marker or an element name that is recognised in any case is also recognised
in the few foreign letters that fold to its own: the Kelvin sign, the long s,
and the i with a dot and without one.
-/

namespace Mailgrid.Text

/-- One spelling for a letter: Latin capitals, the Kelvin sign and the dotted capital I lose
case. -/
def foldKey (c : Char) : Char :=
  if c = '\u212a' then 'k' else if c = 'İ' then 'i' else c.toLower

/-- Does `c` stand for the small letter `letter` of a name? -/
def isLike (letter c : Char) : Bool :=
  foldKey c == letter || (letter == 's' && c == 'ſ') || (letter == 'i' && c == 'ı')

/-- The spelling of the lower-case `word` that `s` starts with, and what follows it. -/
def spelling? : List Char → List Char → Option (List Char × List Char)
  | [], s => some ([], s)
  | _ :: _, [] => none
  | w :: word, c :: rest =>
    if isLike w c then (spelling? word rest).map fun (spelled, after) => (c :: spelled, after)
    else none

/-- What follows `word` in a text that starts with it in some case. -/
def afterFolded? : List Char → List Char → Option (List Char)
  | [], s => some s
  | _ :: _, [] => none
  | w :: word, c :: rest => if foldKey w = foldKey c then afterFolded? word rest else none

theorem length_of_spelling? {word s spelled rest : List Char}
    (h : spelling? word s = some (spelled, rest)) :
    s.length = word.length + rest.length ∧ s = spelled ++ rest := by
  induction word generalizing s spelled with
  | nil =>
    simp only [spelling?, Option.some.injEq, Prod.mk.injEq] at h
    simp [← h.1, h.2]
  | cons w word ih =>
    cases s with
    | nil => simp [spelling?] at h
    | cons c s =>
      by_cases hc : isLike w c
      · simp only [spelling?, hc, if_true, Option.map_eq_some_iff, Prod.mk.injEq] at h
        obtain ⟨⟨sp, re⟩, hs, rfl, rfl⟩ := h
        obtain ⟨hl, he⟩ := ih hs
        constructor
        · simpa [Nat.add_right_comm] using hl
        · simp [he]
      · simp [spelling?, hc] at h

theorem length_le_of_afterFolded? {word s rest : List Char}
    (h : afterFolded? word s = some rest) : s.length = word.length + rest.length := by
  induction word generalizing s with
  | nil => simp only [afterFolded?, Option.some.injEq] at h; simp [h]
  | cons w word ih =>
    cases s with
    | nil => simp [afterFolded?] at h
    | cons c s =>
      by_cases hc : foldKey w = foldKey c
      · simp only [afterFolded?, hc, if_true] at h
        simp only [List.length_cons, ih h]; omega
      · simp [afterFolded?, hc] at h

end Mailgrid.Text
