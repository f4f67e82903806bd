/-!
Unsigned decimal numbers in text: an optional plus sign and digits of ASCII, with a value below a bound.
-/
namespace Pipeworks.Text

inductive UnsignedError where
  /-- The text has no characters at all. -/
  | empty
  /-- Something other than a digit stands where a digit belongs. -/
  | invalidDigit
  /-- The number does not fit. -/
  | tooLarge
deriving DecidableEq, Repr

namespace UnsignedError

def message : UnsignedError → String
  | empty => "cannot parse integer from empty string"
  | invalidDigit => "invalid digit found in string"
  | tooLarge => "number too large to fit in target type"

end UnsignedError

/-- Numbers of 64 bits are below this bound. -/
def bound64 : Nat := 18446744073709551616

def digitVal? (c : Char) : Option Nat :=
  if c.isDigit then some (c.toNat - '0'.toNat) else none

/-- Reads digits left to right; the first fault met decides, be it a character or the bound. -/
def readDigits (bound : Nat) : Nat → List Char → Except UnsignedError Nat
  | acc, [] => .ok acc
  | acc, c :: cs =>
    match digitVal? c with
    | none => .error .invalidDigit
    | some d => if acc * 10 + d < bound then readDigits bound (acc * 10 + d) cs else .error .tooLarge

/-- Reads an unsigned number below `bound`; a sign alone is an invalid digit. -/
def readUnsigned (bound : Nat) : List Char → Except UnsignedError Nat
  | [] => .error .empty
  | ['+'] => .error .invalidDigit
  | '+' :: cs => readDigits bound 0 cs
  | cs => readDigits bound 0 cs

end Pipeworks.Text
