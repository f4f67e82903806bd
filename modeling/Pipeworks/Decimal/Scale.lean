import Pipeworks.Decimal.Shortest
/-!
From decimals to doubles, in two ways: rounded once and correctly, or in the way of a reader that keeps as
many leading digits as fit 64 bits and then scales them in double arithmetic.
-/
namespace Pipeworks.Decimal

/-- The double nearest to the decimal `m * 10 ^ e`. Beyond the range of doubles nothing is computed, so that
a huge exponent costs nothing. -/
def nearest (m : Nat) (e : Int) : Float :=
  if m = 0 then 0.0
  else
    let top := e + digitCount m
    if 310 < top then 1.0 / 0.0
    else if top < -330 then 0.0
    else if 0 ≤ e then Float.ofScientific m false e.toNat else Float.ofScientific m true (-e).toNat

def powerOfTen (k : Nat) : Float := Float.ofScientific 1 false k

/-- Scales a significand of 64 bits: one multiplication or division by a power of ten, with steps of `1e308`
before it while the exponent is below what the powers reach. `none` is a number too large. The first argument
bounds the number of such steps. -/
def scaled? : Nat → Float → Int → Option Float
  | 0, _, _ => some 0.0
  | steps + 1, f, e =>
    if e.natAbs ≤ 308 then
      if 0 ≤ e then
        let r := f * powerOfTen e.natAbs
        if r.isInf then none else some r
      else some (f / powerOfTen e.natAbs)
    else if f == 0.0 then some f
    else if 0 ≤ e then none
    else scaled? steps (f / 1e308) (e + 308)

/-- The double that a significand of at most 64 bits and an exponent are read as. Three steps of `1e308` take
every significand to zero. -/
def scale? (positive : Bool) (significand : Nat) (e : Int) : Option Float :=
  (scaled? 5 significand.toUInt64.toFloat e).map fun f => if positive then f else -f

end Pipeworks.Decimal
