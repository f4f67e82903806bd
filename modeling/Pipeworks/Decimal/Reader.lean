import Pipeworks.Decimal.Scale
import Pipeworks.Text.Unsigned
/-!
Reading a double from a text that holds nothing else: an optional sign, digits with an optional point and an
optional exponent, or one of the words for numbers that are not finite.
-/
namespace Pipeworks.Decimal

/-- The value of decimal digits; other characters do not occur. -/
def valueOf (cs : List Char) : Nat := cs.foldl (fun n c => n * 10 + (c.toNat - '0'.toNat)) 0

/-- The exponent at the end of a number: nothing, or a mark, an optional sign and digits. -/
def readExponent? : List Char → Option Int
  | [] => some 0
  | c :: cs =>
    if c = 'e' ∨ c = 'E' then
      let (negative, ds) := match cs with
        | '-' :: ds => (true, ds)
        | '+' :: ds => (false, ds)
        | ds => (false, ds)
      if ds.isEmpty ∨ !ds.all Char.isDigit then none
      else some (if negative then -(valueOf ds : Int) else (valueOf ds : Int))
    else none

/-- The digits before the point, those after it, and what follows. -/
def parts (cs : List Char) : List Char × List Char × List Char :=
  let whole := cs.takeWhile Char.isDigit
  match cs.dropWhile Char.isDigit with
  | '.' :: rest => (whole, rest.takeWhile Char.isDigit, rest.dropWhile Char.isDigit)
  | rest => (whole, [], rest)

def readUnsigned? (cs : List Char) : Option Float :=
  let word := String.ofList (cs.map Char.toLower)
  if word = "inf" ∨ word = "infinity" then some (1.0 / 0.0)
  else if word = "nan" then some (0.0 / 0.0)
  else
    let (whole, fraction, rest) := parts cs
    if whole.isEmpty ∧ fraction.isEmpty then none
    else (readExponent? rest).map fun e => nearest (valueOf (whole ++ fraction)) (e - fraction.length)

/-- Reads a double; the result is the one nearest to the number that the text denotes. -/
def read? (s : String) : Option Float :=
  match s.toList with
  | '-' :: cs => (readUnsigned? cs).map (- ·)
  | '+' :: cs => readUnsigned? cs
  | cs => readUnsigned? cs

end Pipeworks.Decimal
