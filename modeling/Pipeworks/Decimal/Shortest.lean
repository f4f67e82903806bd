/-!
The fewest decimal digits that read back as a given double.

A finite double is `m * 2 ^ q`. The reals that round to it form an interval around it; among the
decimals in that interval the ones with the fewest digits are sought, and of those the nearest.
-/
namespace Pipeworks.Decimal

/-- A decimal `digits * 10 ^ exponent`. -/
structure Digits where
  digits : Nat
  exponent : Int
deriving DecidableEq, Repr

/-- The fraction of a double has 52 bits. -/
def fractionBound : Nat := 4503599627370496

/-- The highest bit of a double is its sign. -/
def signBit : Nat := 9223372036854775808

/-- A positive binary fraction `mantissa * 2 ^ exponent`. `narrow` says that the gap below it is half
the gap above it, as it is at a power of two. -/
structure Binary where
  mantissa : Nat
  exponent : Int
  narrow : Bool
deriving DecidableEq, Repr

namespace Binary

/-- The value without sign that the bits of a finite double stand for. -/
def ofBits (bits : Nat) : Binary :=
  let field : Nat := bits / fractionBound % 2048
  let fraction : Nat := bits % fractionBound
  if field = 0 then ⟨fraction, -1074, false⟩
  else ⟨fraction + fractionBound, Int.ofNat field - 1075, fraction == 0 && field != 1⟩

/-- The ends of the interval of reals that round to the number, and the number itself, as numerators
over one denominator. -/
def interval (b : Binary) : Nat × Nat × Nat × Nat :=
  let low := 4 * b.mantissa - (if b.narrow then 1 else 2)
  let high := 4 * b.mantissa + 2
  let shift := b.exponent - 2
  if 0 ≤ shift then
    let s := Nat.pow 2 shift.toNat
    (low * s, 4 * b.mantissa * s, high * s, 1)
  else (low, 4 * b.mantissa, high, Nat.pow 2 (-shift).toNat)

end Binary

def digitCount (n : Nat) : Nat :=
  (Nat.toDigits 10 n).length

/-- The exponent `e` with `10 ^ (e - 1) ≤ num / den < 10 ^ e`, for positive numbers. -/
def magnitude (num den : Nat) : Int :=
  let k : Int := (digitCount den : Int) - digitCount num
  let (n, d) := if 0 ≤ k then (num * Nat.pow 10 k.toNat, den) else (num, den * Nat.pow 10 (-k).toNat)
  if d ≤ n then 1 - k else -k

/-- Compares `c * 10 ^ t` with `num / den`. -/
def compareScaled (c : Nat) (t : Int) (num den : Nat) : Ordering :=
  if 0 ≤ t then compare (c * Nat.pow 10 t.toNat * den) num
  else compare (c * den) (num * Nat.pow 10 (-t).toNat)

/-- Whether a point of the decimal grid rounds to the number; the ends of the interval belong to it
when the mantissa is even. -/
def inside (even : Bool) (low high den c : Nat) (t : Int) : Bool :=
  match compareScaled c t low den, compareScaled c t high den with
  | .gt, .lt => true
  | .eq, _ => even
  | _, .eq => even
  | _, _ => false

/-- The point of the grid of spacing `10 ^ t` that is nearest to `num / den` among those of its two
neighbours that round to the number; a tie goes to the even one. -/
def onGrid? (even : Bool) (low num high den : Nat) (t : Int) : Option Nat :=
  let c := if 0 ≤ t then num / (den * Nat.pow 10 t.toNat) else num * Nat.pow 10 (-t).toNat / den
  match inside even low high den c t, inside even low high den (c + 1) t with
  | true, false => some c
  | false, true => some (c + 1)
  | false, false => none
  | true, true =>
    -- Twice the middle between the neighbours is `(2 c + 1) * 10 ^ t`.
    match compareScaled (2 * c + 1) t (2 * num) den with
    | .gt => some c
    | .lt => some (c + 1)
    | .eq => if c % 2 = 0 then some c else some (c + 1)

/-- Tries grids with more and more digits; seventeen always suffice for a double. -/
def searchGrids (even : Bool) (low num high den : Nat) (mag : Int) : Nat → Digits
  | 0 => ⟨num / den, 0⟩
  | left + 1 =>
    let t := mag - (18 - (left + 1) : Int)
    match onGrid? even low num high den t with
    | some c => ⟨c, t⟩
    | none => searchGrids even low num high den mag left

/-- Drops the zeros a number ends with; each raises the exponent. -/
def dropZeros : Nat → Digits → Digits
  | 0, d => d
  | fuel + 1, d =>
    if d.digits ≠ 0 ∧ d.digits % 10 = 0 then dropZeros fuel ⟨d.digits / 10, d.exponent + 1⟩ else d

/-- The shortest decimal that reads back as the binary fraction; zero has the single digit 0. -/
def shortest (b : Binary) : Digits :=
  if b.mantissa = 0 then ⟨0, 0⟩
  else
    let (low, num, high, den) := b.interval
    let found := searchGrids (b.mantissa % 2 == 0) low num high den (magnitude num den) 17
    dropZeros (digitCount found.digits) found

end Pipeworks.Decimal
