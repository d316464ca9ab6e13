import Mailgrid.Text.Blank
import Mailgrid.Text.Digit

/-!
# Whole numbers in texts

A number is read between blanks, with one sign or none, from digits; those up to
nine may be of any script, and an underscore may stand between two digits.
Decimal numbers have a greatest length. Numbers to a base that is a power of two
have none, and a nought and a letter may stand before them that tell the base.
-/

namespace Mailgrid.Text

/-- How many digits a decimal number has at most. -/
def maxDigits : Nat := 4300

/-- The value of a digit below `base`. -/
def digitIn? (base : Nat) (c : Char) : Option Nat :=
  let value := match digitValue? c with
    | some d => some d
    | none =>
      if 'a' ≤ c.toLower && c.toLower ≤ 'z' then some (c.toLower.toNat - 87) else none
  value.filter (· < base)

/-- Reads digits onto `value`; `closed` tells that the last character was a digit. -/
def digitsOnto (base value : Nat) (closed : Bool) : List Char → Option Nat
  | [] => if closed then some value else none
  | c :: rest =>
    match digitIn? base c with
    | some d => digitsOnto base (base * value + d) true rest
    | none => if c = '_' ∧ closed = true then digitsOnto base value false rest else none

/-- A decimal number without a sign. -/
def natural? (s : List Char) : Option Nat :=
  if maxDigits < s.countP isDigit then none else digitsOnto 10 0 false s

/-- A number that may have a sign, whose size `read?` tells. -/
def signed? (read? : List Char → Option Nat) : List Char → Option Int
  | '-' :: digits => (read? digits).map fun n => -(n : Int)
  | '+' :: digits => (read? digits).map Int.ofNat
  | digits => (read? digits).map Int.ofNat

def integer? (s : List Char) : Option Int :=
  signed? natural? (trim s)

/-- Drops the nought and the letter that tell a base. -/
def withoutBase (letter : Char) (s : List Char) : List Char :=
  match s with
  | nought :: c :: rest =>
    if digitValue? nought = some 0 ∧ c.toLower = letter then rest else s
  | s => s

/-- A number to a base, which `letter` stands for. -/
def integerIn? (base : Nat) (letter : Char) (s : List Char) : Option Int :=
  signed? (fun digits => digitsOnto base 0 false (withoutBase letter digits)) (trim s)

end Mailgrid.Text
