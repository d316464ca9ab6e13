import Mailgrid.Markup.Reference.Names
import Mailgrid.Text.Integer
import Mailgrid.Text.Search

/-!
# Character references

What a reference stands for. A number in a text and a number in an attribute
value are read alike except for controls, which a value spells as nothing. A
value also takes names without a semicolon, by their longest known beginning.
-/

namespace Mailgrid.Markup.Reference

def replacement : Char := '\ufffd'

/-- The Windows meaning of the numbers 128 to 159, where they have one. -/
def windows : List (Nat × Char) := [
  (0x80, '€'), (0x82, '‚'), (0x83, 'ƒ'), (0x84, '„'), (0x85, '…'), (0x86, '†'), (0x87, '‡'),
  (0x88, 'ˆ'), (0x89, '‰'), (0x8A, 'Š'), (0x8B, '‹'), (0x8C, 'Œ'), (0x8E, 'Ž'), (0x91, '‘'),
  (0x92, '’'), (0x93, '“'), (0x94, '”'), (0x95, '•'), (0x96, '–'), (0x97, '—'), (0x98, '˜'),
  (0x99, '™'), (0x9A, 'š'), (0x9B, '›'), (0x9C, 'œ'), (0x9E, 'ž'), (0x9F, 'Ÿ')]

def windowsChar? (n : Nat) : Option Char :=
  (windows.find? (·.1 == n)).map (·.2)

/-- Is there no character of this number? -/
def isVoidNumber (n : Nat) : Bool :=
  n == 0 || n > 0x10FFFF || (0xD800 ≤ n && n ≤ 0xDFFF)

/-- Is this the number of a control or of a code point that never is a character? -/
def isInvalidNumber (n : Nat) : Bool :=
  (1 ≤ n && n ≤ 8) || n == 0xB || (0xE ≤ n && n ≤ 0x1F) || (0x7F ≤ n && n ≤ 0x9F) ||
    (0xFDD0 ≤ n && n ≤ 0xFDEF) || n % 0x10000 == 0xFFFE || n % 0x10000 == 0xFFFF

/-- The character that a number stands for in a text. -/
def charOfNumber (n : Nat) : Char :=
  if isVoidNumber n then replacement else (windowsChar? n).getD (Char.ofNat n)

/-- The text that a number stands for in an attribute value. -/
def valueOfNumber (n : Nat) : List Char :=
  if isVoidNumber n then [replacement]
  else match windowsChar? n with
    | some c => [c]
    | none =>
      if n = 0x81 ∨ n = 0x8D ∨ n = 0x8F ∨ n = 0x90 ∨ n = 0x9D then [Char.ofNat n]
      else if isInvalidNumber n then [] else [Char.ofNat n]

def isHexDigit (c : Char) : Bool :=
  c.isDigit || ('a' ≤ c && c ≤ 'f') || ('A' ≤ c && c ≤ 'F')

def decimalNumber (digits : List Char) : Nat :=
  digits.foldl (fun n c => 10 * n + (c.toNat - 48)) 0

/-- Are these more digits than a decimal number may have? -/
def isTooLong (digits : List Char) : Bool :=
  Text.maxDigits < digits.length

def hexNumber (digits : List Char) : Nat :=
  digits.foldl (fun n c => 16 * n + hexDigit c.toUpper) 0

/-- Is there a reference by a decimal number of too many digits? -/
def holdsTooLong : List Char → Bool
  | [] => false
  | '&' :: '#' :: rest => isTooLong (rest.takeWhile Char.isDigit) || holdsTooLong rest
  | _ :: rest => holdsTooLong rest

/-- May `c` stand in a name inside an attribute value? -/
def isValueNameChar (c : Char) : Bool :=
  !(c == '\t' || c == '\n' || c == '\x0c' || c == ' ' || c == '<' || c == '&' || c == '#' || c == ';')

/-- The longest beginning of `name`, of two characters or more, that is known without a
semicolon, followed by the rest of the name. -/
def longestKnown? (name : List Char) : Nat → Option (List Char)
  | 0 => none
  | 1 => none
  | n + 2 =>
    match bareTextOf? (name.take (n + 2)) with
    | some text => some (text ++ name.drop (n + 2))
    | none => longestKnown? name (n + 1)

/-- What the name of a reference stands for in a value; `closed` tells that a semicolon follows. -/
def valueOfName (name : List Char) (closed : Bool) : List Char :=
  let ending := if closed then [';'] else []
  match if closed then textOf? name else bareTextOf? name with
  | some text => text
  | none =>
    match longestKnown? name (if closed then name.length else name.length - 1) with
    | some text => text ++ ending
    | none => '&' :: name ++ ending

/-- The semicolon that may end a reference. -/
def skipSemicolon : List Char → List Char
  | ';' :: rest => rest
  | s => s

theorem length_skipSemicolon_le (s : List Char) : (skipSemicolon s).length ≤ s.length := by
  unfold skipSemicolon; split <;> simp

def number? (isOne : Char → Bool) (number : List Char → Nat) (s : List Char) :
    Option (List Char × List Char) :=
  if (s.takeWhile isOne).isEmpty then none
  else some (valueOfNumber (number (s.takeWhile isOne)), skipSemicolon (s.dropWhile isOne))

/-- Takes at most 32 characters as a name. -/
def name? (s : List Char) : Option (List Char × List Char) :=
  let name := (s.takeWhile isValueNameChar).take 32
  let after := s.drop name.length
  if name.isEmpty then none
  else some (valueOfName name (after.head? == some ';'), skipSemicolon after)

/-- What the reference after an ampersand stands for in a value, and what follows it. -/
def valueAfter? : List Char → Option (List Char × List Char)
  | '#' :: 'x' :: rest => number? isHexDigit hexNumber rest
  | '#' :: 'X' :: rest => number? isHexDigit hexNumber rest
  | '#' :: rest => number? Char.isDigit decimalNumber rest
  | s => name? s

theorem length_le_of_number? {isOne : Char → Bool} {number : List Char → Nat}
    {s value rest : List Char} (h : number? isOne number s = some (value, rest)) :
    rest.length ≤ s.length := by
  unfold number? at h
  split at h
  · simp at h
  · cases h
    exact Nat.le_trans (length_skipSemicolon_le _) (Text.length_dropWhile_le isOne s)

theorem length_le_of_name? {s value rest : List Char} (h : name? s = some (value, rest)) :
    rest.length ≤ s.length := by
  simp only [name?] at h
  split at h
  · simp at h
  · cases h
    exact Nat.le_trans (length_skipSemicolon_le _) (by simp)

theorem length_le_of_valueAfter? {s value rest : List Char}
    (h : valueAfter? s = some (value, rest)) : rest.length ≤ s.length := by
  unfold valueAfter? at h
  split at h
  · exact Nat.le_trans (length_le_of_number? h) (by simp only [List.length_cons]; omega)
  · exact Nat.le_trans (length_le_of_number? h) (by simp only [List.length_cons]; omega)
  · exact Nat.le_trans (length_le_of_number? h) (by simp only [List.length_cons]; omega)
  · exact length_le_of_name? h

/-- A reference in an attribute value. -/
def valueMatch? : (s : List Char) → Option (Text.Match (List Char) s)
  | [] => none
  | c :: s =>
    if c = '&' then
      match h : valueAfter? s with
      | some (value, rest) => some ⟨value, rest, Nat.lt_succ_of_le (length_le_of_valueAfter? h)⟩
      | none => none
    else none

/-- An attribute value with its references resolved. -/
def resolve (value : List Char) : List Char :=
  Text.substitute valueMatch? value

theorem resolve_of_not_mem {value : List Char} (h : '&' ∉ value) : resolve value = value := by
  unfold resolve Text.substitute
  induction value with
  | nil => simp [Text.pieces]
  | cons c rest ih =>
    have hc : c ≠ '&' := fun e => h (by simp [e])
    have hr : '&' ∉ rest := fun m => h (List.mem_cons_of_mem _ m)
    rw [Text.pieces]
    simp [valueMatch?, hc, Text.Piece.write, ih hr]

end Mailgrid.Markup.Reference
