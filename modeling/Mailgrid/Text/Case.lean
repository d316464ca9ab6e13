import Mailgrid.Text.CaseTable
import Mailgrid.Text.Letter

/-!
# Letter case

Lower and upper case of a text, by the full mappings of Unicode: one character
may become several, and a sigma that ends a word has a form of its own.
Characters below 128 never reach the tables.
-/

namespace Mailgrid.Text

def moveBy (runs : List CaseRun) (c : Char) : Char :=
  let n := c.toNat
  match runs.find? fun r => r.first ≤ n && n ≤ r.last && (n - r.first) % r.stride == 0 with
  | some r => Char.ofNat (n + r.shift).toNat
  | none => c

/-- Is the first character that a boundary is not seen through a letter with case? -/
def startsCased (s : List Char) : Bool :=
  match s.dropWhile (inRanges caseIgnorableRanges) with
  | [] => false
  | c :: _ => inRanges casedRanges c

/-- The lower case of `c` between the reversed text `before` and the text `after`. -/
def lowerAt (before : List Char) (c : Char) (after : List Char) : List Char :=
  if c.toNat < 0x80 then [c.toLower]
  else if c = 'Σ' then [if startsCased before && !startsCased after then 'ς' else 'σ']
  else if c = 'İ' then ['i', '\u0307']
  else [moveBy lowerRuns c]

def lowerAfter (before : List Char) : List Char → List Char
  | [] => []
  | c :: rest => lowerAt before c rest ++ lowerAfter (c :: before) rest

def lower (s : List Char) : List Char :=
  lowerAfter [] s

def upperChar (c : Char) : List Char :=
  if c.toNat < 0x80 then [c.toUpper]
  else match upperExpansions.find? (·.1 == c.toNat) with
    | some (_, codes) => codes.map Char.ofNat
    | none => [moveBy upperRuns c]

def upper (s : List Char) : List Char :=
  s.flatMap upperChar

def lowerString (s : String) : String :=
  String.ofList (lower s.toList)

def upperString (s : String) : String :=
  String.ofList (upper s.toList)

theorem lowerAfter_of_ascii {s : List Char} (h : ∀ c ∈ s, c.toNat < 0x80) (before : List Char) :
    lowerAfter before s = s.map Char.toLower := by
  induction s generalizing before with
  | nil => rfl
  | cons c rest ih =>
    have hc : c.toNat < 0x80 := h c (by simp)
    rw [lowerAfter, ih (fun d hd => h d (by simp [hd]))]
    simp [lowerAt, hc]

theorem lower_of_ascii {s : List Char} (h : ∀ c ∈ s, c.toNat < 0x80) :
    lower s = s.map Char.toLower :=
  lowerAfter_of_ascii h []

/-- A spelling that is neither all lower case nor all upper case. -/
def isMixedCase (name : List Char) : Bool :=
  name != lower name && name != upper name

end Mailgrid.Text
