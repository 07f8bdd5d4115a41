import Tabletop.Saturation

/-! Blanks and decimal numerals.

Blank are the characters with the property White_Space. A numeral is an optional sign
and one or more ASCII digits, leading zeros allowed. It is read from the left and the
first problem decides: a character that is no digit, or the digit at which the number
leaves its range. -/

set_option autoImplicit false

namespace Tabletop

def isBlank (char : Char) : Bool :=
  let code := char.toNat
  (0x09 ≤ code && code ≤ 0x0D) || code == 0x20 || code == 0x85 || code == 0xA0 ||
    code == 0x1680 || (0x2000 ≤ code && code ≤ 0x200A) || code == 0x2028 || code == 0x2029 ||
    code == 0x202F || code == 0x205F || code == 0x3000

def trim (text : List Char) : List Char :=
  ((text.dropWhile isBlank).reverse.dropWhile isBlank).reverse

def trimmed (text : String) : String := String.ofList (trim text.toList)

inductive NumeralFault where
  | empty
  | invalidDigit
  | tooLarge
  | tooSmall
  deriving DecidableEq, Repr

def NumeralFault.message : NumeralFault → String
  | .empty => "cannot parse integer from empty string"
  | .invalidDigit => "invalid digit found in string"
  | .tooLarge => "number too large to fit in target type"
  | .tooSmall => "number too small to fit in target type"

namespace Numeral

def digitValue (char : Char) : Nat := char.toNat - '0'.toNat

/-- Reads digits behind those that made `read`, while the number is at most `limit`. -/
def extend (limit : Nat) (beyond : NumeralFault) (read : Nat) : List Char → Except NumeralFault Nat
  | [] => .ok read
  | char :: rest =>
    if char.isDigit then
      let next := 10 * read + digitValue char
      if next ≤ limit then extend limit beyond next rest else .error beyond
    else .error .invalidDigit

/-- A magnitude, which may not be missing: a sign alone is no numeral. -/
def magnitude (limit : Nat) (beyond : NumeralFault) : List Char → Except NumeralFault Nat
  | [] => .error .invalidDigit
  | digits => extend limit beyond 0 digits

def readCount : List Char → Except NumeralFault Nat
  | [] => .error .empty
  | '+' :: digits => magnitude maxCount .tooLarge digits
  | digits => magnitude maxCount .tooLarge digits

def readValue : List Char → Except NumeralFault Int
  | [] => .error .empty
  | '+' :: digits => (magnitude maxValue.toNat .tooLarge digits).map Int.ofNat
  | '-' :: digits => (magnitude (-minValue).toNat .tooSmall digits).map fun n => -(n : Int)
  | digits => (magnitude maxValue.toNat .tooLarge digits).map Int.ofNat

end Numeral

end Tabletop
