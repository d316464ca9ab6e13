import Mailgrid.Text.Blank

/-!
# Searching a text

A pattern is a function that looks at the start of a text. Patterns that
consume something are tried from left to right; the text between two hits is
left as it is. `pieces` is the one scan behind `substitute` and `findAll`.
-/

namespace Mailgrid.Text

/-- What follows `word` in a text that starts with it. -/
def after? : List Char → List Char → Option (List Char)
  | [], s => some s
  | _ :: _, [] => none
  | w :: word, c :: rest => if w = c then after? word rest else none

theorem after?_append (word rest : List Char) : after? word (word ++ rest) = some rest := by
  induction word with
  | nil => rfl
  | cons w word ih => simp [after?, ih]

theorem append_of_after? {word s rest : List Char} (h : after? word s = some rest) :
    s = word ++ rest := by
  induction word generalizing s with
  | nil => simpa [after?] using h
  | cons w word ih =>
    cases s with
    | nil => simp [after?] at h
    | cons c s =>
      by_cases hw : w = c
      · subst hw
        simp only [after?, if_true] at h
        simp [ih h]
      · simp [after?, hw] at h

/-- The text before the first place where `look` succeeds, and what it found there. -/
def cutAt (look : List Char → Option α) : List Char → Option (List Char × α)
  | [] => (look []).map ([], ·)
  | c :: rest =>
    match look (c :: rest) with
    | some a => some ([], a)
    | none => (cutAt look rest).map fun (before, a) => (c :: before, a)

theorem look_of_cutAt {look : List Char → Option α} {s before : List Char} {a : α}
    (h : cutAt look s = some (before, a)) : ∃ after, s = before ++ after ∧ look after = some a := by
  induction s generalizing before with
  | nil =>
    simp only [cutAt, Option.map_eq_some_iff, Prod.mk.injEq] at h
    obtain ⟨b, hb, rfl, rfl⟩ := h
    exact ⟨[], rfl, hb⟩
  | cons c rest ih =>
    simp only [cutAt] at h
    split at h
    · rename_i b hb; cases h; exact ⟨c :: rest, rfl, hb⟩
    · simp only [Option.map_eq_some_iff, Prod.mk.injEq] at h
      obtain ⟨⟨b, x⟩, hb, rfl, rfl⟩ := h
      obtain ⟨after, rfl, hl⟩ := ih hb
      exact ⟨after, rfl, hl⟩

def isPartOf (part s : List Char) : Bool :=
  (cutAt (after? part) s).isSome

/-- The texts before and after the first `c`. -/
def cutAtChar (c : Char) : List Char → Option (List Char × List Char)
  | [] => none
  | d :: rest =>
    if d = c then some ([], rest)
    else (cutAtChar c rest).map fun (before, after) => (d :: before, after)

theorem append_of_cutAtChar {c : Char} {s before after : List Char}
    (h : cutAtChar c s = some (before, after)) : s = before ++ c :: after := by
  induction s generalizing before with
  | nil => simp [cutAtChar] at h
  | cons d rest ih =>
    by_cases hd : d = c
    · simp only [cutAtChar, hd, if_true, Option.some.injEq, Prod.mk.injEq] at h
      simp [← h.1, ← h.2, hd]
    · simp only [cutAtChar, hd, if_false, Option.map_eq_some_iff, Prod.mk.injEq] at h
      obtain ⟨⟨b, a⟩, hb, rfl, rfl⟩ := h
      simp [ih hb]

theorem cutAtChar_append {c : Char} {before : List Char} (h : c ∉ before) (after : List Char) :
    cutAtChar c (before ++ c :: after) = some (before, after) := by
  induction before with
  | nil => simp [cutAtChar]
  | cons d before ih =>
    have hd : d ≠ c := fun e => h (by simp [e])
    have hr : c ∉ before := fun m => h (List.mem_cons_of_mem _ m)
    simp [cutAtChar, hd, ih hr]

/-- A pattern found at the start of `s`. -/
structure Match (α : Type) (s : List Char) where
  value : α
  rest : List Char
  shorter : rest.length < s.length

inductive Piece (α : Type) where
  | plain (c : Char)
  | found (a : α)

/-- The text as characters and matches, leftmost matches first. -/
def pieces (pattern : (s : List Char) → Option (Match α s)) : List Char → List (Piece α)
  | [] => []
  | c :: rest =>
    match pattern (c :: rest) with
    | some m => .found m.value :: pieces pattern m.rest
    | none => .plain c :: pieces pattern rest
termination_by s => s.length
decreasing_by
  · exact m.shorter
  · simp

def Piece.write (write : α → List Char) : Piece α → List Char
  | .plain c => [c]
  | .found a => write a

def Piece.value? : Piece α → Option α
  | .plain _ => none
  | .found a => some a

/-- The text with every match replaced by its value. -/
def substitute (pattern : (s : List Char) → Option (Match (List Char) s)) (s : List Char) :
    List Char :=
  (pieces pattern s).flatMap (Piece.write id)

/-- The values of all matches, in order. -/
def findAll (pattern : (s : List Char) → Option (Match α s)) (s : List Char) : List α :=
  (pieces pattern s).filterMap Piece.value?

/-- Every occurrence of the text `c :: old` written as `new`. -/
def replaceAll (c : Char) (old new : List Char) : List Char → List Char :=
  substitute fun s =>
    match h : after? (c :: old) s with
    | some rest => some ⟨new, rest, by rw [append_of_after? h, List.length_append, List.length_cons]; omega⟩
    | none => none

end Mailgrid.Text
