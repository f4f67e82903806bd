import Pipeworks.Json.Doc
import Pipeworks.Decimal.Scale
import Pipeworks.Text.Utf8
/-!
Numerals of a JSON text. Sixty-four bits of leading digits are kept; further digits only count places. An
integer that fits stays one, anything else becomes a double.
-/
namespace Pipeworks.Json.Numeral

open Pipeworks.Text

def digit? : Symbol → Option Nat
  | some c => if c.isDigit then some (c.toNat - '0'.toNat) else none
  | none => none

def startsWithDigit : List Symbol → Bool
  | s :: _ => (digit? s).isSome
  | [] => false

def dropDigits (s : List Symbol) : List Symbol :=
  s.dropWhile fun x => (digit? x).isSome

/-- The bound of a significand. -/
def limit : Nat := 18446744073709551616

/-- Leading digits, as far as they fit, onto a significand: the significand, how many digits were taken, how
many more there are, and the rest. -/
def significand (acc taken : Nat) : List Symbol → Nat × Nat × Nat × List Symbol
  | [] => (acc, taken, 0, [])
  | x :: rest =>
    match digit? x with
    | none => (acc, taken, 0, x :: rest)
    | some d =>
      if acc * 10 + d < limit then significand (acc * 10 + d) (taken + 1) rest
      else (acc, taken, (x :: rest).length - (dropDigits rest).length, dropDigits rest)

/-- The double of a significand and an exponent. -/
def scaled (positive : Bool) (m : Nat) (e : Int) : Except SyntaxError Json.Number :=
  match Decimal.scale? positive m e with
  | some f => .ok (.float f)
  | none => .error .numberOutOfRange

def digitsValue (acc : Nat) : List Symbol → Nat
  | [] => acc
  | x :: rest =>
    match digit? x with
    | none => acc
    | some d => digitsValue (acc * 10 + d) rest

/-- Past the letter of an exponent. An exponent beyond 31 bits makes zero or a number out of range. -/
def exponent (positive : Bool) (m : Nat) (e : Int) (s : List Symbol) : Except SyntaxError Json.Number :=
  let (up, s) := match s with
    | some '+' :: r => (true, r)
    | some '-' :: r => (false, r)
    | r => (true, r)
  match s with
  | [] => .error .eofValue
  | x :: _ =>
    if (digit? x).isNone then .error .invalidNumber
    else
      let n := digitsValue 0 s
      if 2147483647 < n then
        if m ≠ 0 ∧ up then .error .numberOutOfRange
        else .ok (.float (if positive then 0.0 else -0.0))
      else scaled positive m (if up then e + n else e - n)

/-- An exponent, or the end of the number. -/
def exponentOrEnd (positive : Bool) (m : Nat) (e : Int) : List Symbol → Except SyntaxError Json.Number
  | some 'e' :: s => exponent positive m e s
  | some 'E' :: s => exponent positive m e s
  | _ => scaled positive m e

/-- Past the point: at least one digit. -/
def fraction (positive : Bool) (m : Nat) (e : Int) (s : List Symbol) : Except SyntaxError Json.Number :=
  match s with
  | [] => .error .eofValue
  | x :: _ =>
    if (digit? x).isNone then .error .invalidNumber
    else
      let (m, taken, _, rest) := significand m 0 s
      exponentOrEnd positive m (e - taken) rest

/-- Past the digits of the integral part, of which `more` did not fit. -/
def afterInteger (positive : Bool) (m more : Nat) : List Symbol → Except SyntaxError Json.Number
  | some '.' :: s => fraction positive m more s
  | some 'e' :: s => exponent positive m more s
  | some 'E' :: s => exponent positive m more s
  | _ =>
    if more ≠ 0 then scaled positive m more
    else if positive then .ok (.int m)
    else if 1 ≤ m ∧ m ≤ 9223372036854775808 then .ok (.int (-(m : Int)))
    else .ok (.float (-m.toUInt64.toFloat))

def unsigned (positive : Bool) : List Symbol → Except SyntaxError Json.Number
  | [] => .error .eofValue
  | x :: rest =>
    match digit? x with
    | none => .error .invalidNumber
    | some 0 => if startsWithDigit rest then .error .invalidNumber else afterInteger positive 0 0 rest
    | some d =>
      let (m, _, more, rest) := significand d 1 rest
      afterInteger positive m more rest

/-- Reads the numeral that the input begins with. -/
def read : List Symbol → Except SyntaxError Json.Number
  | some '-' :: s => unsigned false s
  | s => unsigned true s

/-- Skims an exponent past its letter. -/
def skimExponent (s : List Symbol) : Except SyntaxError (List Symbol) :=
  let s := match s with
    | some '+' :: r => r
    | some '-' :: r => r
    | r => r
  if startsWithDigit s then .ok (dropDigits s) else .error .invalidNumber

def skimExponentOrEnd : List Symbol → Except SyntaxError (List Symbol)
  | some 'e' :: s => skimExponent s
  | some 'E' :: s => skimExponent s
  | s => .ok s

def skimAfterInteger : List Symbol → Except SyntaxError (List Symbol)
  | some '.' :: s => if startsWithDigit s then skimExponentOrEnd (dropDigits s) else .error .invalidNumber
  | s => skimExponentOrEnd s

def skimUnsigned : List Symbol → Except SyntaxError (List Symbol)
  | some '0' :: rest => if startsWithDigit rest then .error .invalidNumber else skimAfterInteger rest
  | s => if startsWithDigit s then skimAfterInteger (dropDigits s) else .error .invalidNumber

/-- Passes over the numeral that the input begins with, and gives the rest. -/
def skim : List Symbol → Except SyntaxError (List Symbol)
  | some '-' :: s => skimUnsigned s
  | s => skimUnsigned s

end Pipeworks.Json.Numeral
