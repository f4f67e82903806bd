import Pipeworks.Decimal.Shortest
/-!
How a double is written. The digits are always the shortest that read back; a `Layout` decides where the
point goes and when an exponent is written.
-/
namespace Pipeworks.Decimal

/-- The decisions of one number format. -/
structure Layout where
  /-- Scientific exponents outside this range are written with an exponent; `none` is no bound. -/
  plainFrom : Option Int
  plainTo : Option Int
  /-- A positive exponent carries a plus sign. -/
  plusSign : Bool
  /-- An integral number keeps `.0`. -/
  pointZero : Bool
  notANumber : String
  infinite : String
deriving Repr

/-- Numbers of a JSON text: plain from 0.00001 up to below 1e+16. Such a text has no words for numbers
that are not finite; they are written as `null`. -/
def json : Layout := ⟨some (-5), some 15, true, true, "null", "null"⟩

/-- Numbers that a script turns into text. -/
def script : Layout := ⟨some (-5), some 15, false, true, "NaN", "inf"⟩

/-- Numbers within a message: never an exponent. -/
def plain : Layout := ⟨none, none, false, false, "NaN", "inf"⟩

/-- Numbers within the message of a reader: never an exponent, always a point. -/
def pointed : Layout := ⟨none, none, false, true, "NaN", "inf"⟩

namespace Layout

/-- Whether a number of this scientific exponent is written without an exponent. -/
def isPlain (l : Layout) (e : Int) : Bool :=
  l.plainFrom.all (· ≤ e) && l.plainTo.all (e ≤ ·)

/-- The text of a positive decimal or zero. -/
def digits (l : Layout) (d : Digits) : String :=
  let ds := Nat.toDigits 10 d.digits
  -- The scientific exponent: the number is `x.yyy * 10 ^ e`.
  let e : Int := d.exponent + ds.length - 1
  if l.isPlain e then
    if 0 ≤ d.exponent then
      String.ofList (ds ++ List.replicate d.exponent.toNat '0') ++ (if l.pointZero then ".0" else "")
    else if 0 ≤ e then
      let (whole, fraction) := ds.splitAt (e.toNat + 1)
      String.ofList (whole ++ '.' :: fraction)
    else String.ofList ('0' :: '.' :: List.replicate ((-e).toNat - 1) '0' ++ ds)
  else
    let head := match ds with
      | c :: [] => [c]
      | c :: cs => c :: '.' :: cs
      | [] => []
    let sign := if e < 0 then "-" else if l.plusSign then "+" else ""
    String.ofList head ++ "e" ++ sign ++ toString e.natAbs

def float (l : Layout) (x : Float) : String :=
  if x.isNaN then l.notANumber
  else
    let bits := x.toBits.toNat
    let sign := if bits / signBit = 0 then "" else "-"
    if x.isInf then (if l.infinite = "null" then l.infinite else sign ++ l.infinite)
    else sign ++ l.digits (shortest (Binary.ofBits bits))

end Layout

end Pipeworks.Decimal
