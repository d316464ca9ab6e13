import Mailgrid.Decimal.Nearest
import Mailgrid.Text.Blank
import Mailgrid.Text.Digit

/-!
# Reading decimal numbers

The binary number nearest to a decimal one, which has digits around a point and
perhaps an exponent of ten.
-/

namespace Mailgrid.Decimal

/-- The value of digits of any script. -/
def digits (s : List Char) : Nat :=
  s.foldl (fun n c => 10 * n + (Text.digitValue? c).getD 0) 0

def exponent (s : List Char) : Int :=
  match s with
  | '-' :: rest => -(digits rest : Int)
  | '+' :: rest => digits rest
  | rest => digits rest

/-- A number times a power of ten. What is far out of reach is not worked out. -/
def scaled (n : Nat) (power : Int) : Float :=
  let size : Int := (Nat.log2 n : Int) * 3 / 10 + power
  if n = 0 ∨ size < -400 then 0
  else if 400 < size then 1 / 0
  else nearest (n * Nat.pow 10 power.toNat) (Nat.pow 10 (-power).toNat)

def isExponentMark (c : Char) : Bool :=
  c == 'e' || c == 'E'

/-- The number of a decimal text without a sign. -/
def readUnsigned (s : List Char) : Float :=
  let mantissa := s.takeWhile fun c => !isExponentMark c
  let whole := mantissa.takeWhile (· != '.')
  let fraction := mantissa.drop (whole.length + 1)
  scaled (digits (whole ++ fraction))
    (exponent (s.drop (mantissa.length + 1)) - fraction.length)

/-- The number of a decimal text that may have a sign. -/
def read (s : List Char) : Float :=
  match s with
  | '-' :: rest => -readUnsigned rest
  | '+' :: rest => readUnsigned rest
  | rest => readUnsigned rest

/-- An exponent with its mark and perhaps a sign, or nothing. -/
def isExponent (s : List Char) : Bool :=
  match s with
  | [] => true
  | mark :: rest =>
    let digits := match rest with
      | '-' :: digits | '+' :: digits => digits
      | digits => digits
    isExponentMark mark && !digits.isEmpty && digits.all Text.isDigit

/-- Digits around a point, which may be missing, and perhaps an exponent. -/
def isDecimal (s : List Char) : Bool :=
  let whole := s.takeWhile Text.isDigit
  let behind := s.drop whole.length
  match behind with
  | '.' :: rest =>
    let fraction := rest.takeWhile Text.isDigit
    !(whole.isEmpty && fraction.isEmpty) && isExponent (rest.drop fraction.length)
  | rest => !whole.isEmpty && isExponent rest

/-- The number of a text without a sign, which may also be infinite or no number at all. -/
def unsigned? (s : List Char) : Option Float :=
  let word := String.ofList (s.map Char.toLower)
  if word = "inf" ∨ word = "infinity" then some (1 / 0)
  else if word = "nan" then some (0 / 0)
  else if isDecimal s then some (readUnsigned s)
  else none

/-- The number of a text, between blanks and with one sign or none. -/
def ofText? (s : List Char) : Option Float :=
  match Text.trim s with
  | '-' :: rest => (unsigned? rest).map (-·)
  | '+' :: rest => unsigned? rest
  | rest => unsigned? rest

end Mailgrid.Decimal
