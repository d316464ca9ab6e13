/-!
# Splitting a text

The parts of a text between occurrences of one character. Nothing is dropped:
`joinParts` puts the text together again.
-/

namespace Mailgrid.Text

/-- The parts of a text around every `separator`, the empty ones among them. -/
def splitParts (separator : Char) : List Char → List (List Char)
  | [] => [[]]
  | c :: rest =>
    if c = separator then [] :: splitParts separator rest
    else match splitParts separator rest with
      | [] => [[c]]
      | part :: parts => (c :: part) :: parts

def joinParts (separator : Char) : List (List Char) → List Char
  | [] => []
  | [part] => part
  | part :: parts => part ++ separator :: joinParts separator parts

theorem splitParts_ne_nil (separator : Char) (s : List Char) : splitParts separator s ≠ [] := by
  cases s with
  | nil => simp [splitParts]
  | cons c rest =>
    simp only [splitParts]
    split
    · simp
    · split <;> simp

theorem joinParts_splitParts (separator : Char) (s : List Char) :
    joinParts separator (splitParts separator s) = s := by
  induction s with
  | nil => rfl
  | cons c rest ih =>
    have hn := splitParts_ne_nil separator rest
    simp only [splitParts]
    split
    · rename_i hc
      subst hc
      cases hr : splitParts c rest with
      | nil => exact absurd hr hn
      | cons part parts => rw [hr] at ih; simp [joinParts, ih]
    · cases hr : splitParts separator rest with
      | nil => exact absurd hr hn
      | cons part parts =>
        rw [hr] at ih
        cases parts with
        | nil => simpa [joinParts] using ih
        | cons next parts => simpa [joinParts] using ih

end Mailgrid.Text
