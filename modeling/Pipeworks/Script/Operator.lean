import Pipeworks.Script.Program
import Pipeworks.Decimal.Scale
/-!
What operators do with values. Integers have 64 bits and never wrap: an operation whose result does not fit
fails. A float beside an integer makes both floats; a text beside anything joins the texts.
-/
namespace Pipeworks.Script

inductive Fault where
  | overflow
  | divisionByZero
  | typeMismatch
  | unknownVariable (name : String)
  | unknownFunction (name : String)
  | noProperty (name : String)
  | badIndex
  | constant (name : String)
  | tooLarge
  | tooManyCalls
  | noModule
  | badNumber
  | misplaced

namespace Operator

open Value

/-- An integer result, if it fits. -/
def checked (i : Int) : Except Fault Value := if fits i then .ok (int i) else .error .overflow

def ofInt (i : Int) : Float :=
  if i < 0 then -(i.natAbs.toUInt64.toFloat) else i.toNat.toUInt64.toFloat

/-- The remainder of a division of doubles, with the sign of the dividend. It is exact: both numbers are
multiples of one power of two, and the remainder of their multiples has no more bits than they have. -/
def floatRem (x y : Float) : Float :=
  if x.isNaN || y.isNaN || x.isInf || y == 0.0 then 0.0 / 0.0
  else if y.isInf then x
  else
    let a := Decimal.Binary.ofBits (x.toBits.toNat % Decimal.signBit)
    let b := Decimal.Binary.ofBits (y.toBits.toNat % Decimal.signBit)
    let e := min a.exponent b.exponent
    let m := a.mantissa * Nat.pow 2 (a.exponent - e).toNat
    let n := b.mantissa * Nat.pow 2 (b.exponent - e).toNat
    let r := (m % n).toUInt64.toFloat.scaleB e
    if x.toBits.toNat / Decimal.signBit = 0 then r else -r

def intOp : BinaryOp → Int → Int → Except Fault Value
  | .add, a, b => checked (a + b)
  | .sub, a, b => checked (a - b)
  | .mul, a, b => checked (a * b)
  | .div, a, b => if b = 0 then .error .divisionByZero else checked (a.tdiv b)
  | .rem, a, b =>
    if b = 0 then .error .divisionByZero
    else if b = -1 ∧ !fits (-a) then .error .overflow
    else checked (a.tmod b)
  | .pow, a, b =>
    if b < 0 then .error .overflow
    -- A base other than these with an exponent beyond 64 cannot fit.
    else if a = 0 ∨ a = 1 then .ok (int (if b = 0 then 1 else a))
    else if a = -1 then .ok (int (if b % 2 = 0 then 1 else -1))
    else if 64 < b then .error .overflow
    else checked (Int.pow a b.toNat)
  | .lt, a, b => .ok (bool (a < b))
  | .le, a, b => .ok (bool (a ≤ b))
  | .gt, a, b => .ok (bool (a > b))
  | .ge, a, b => .ok (bool (a ≥ b))
  | .eq, a, b => .ok (bool (a = b))
  | .ne, a, b => .ok (bool (a ≠ b))
  | .range, a, b => .ok (range a b false)
  | .closedRange, a, b => .ok (range a b true)
  | .isIn, _, _ => .error .typeMismatch

def floatOp : BinaryOp → Float → Float → Except Fault Value
  | .add, a, b => .ok (float (a + b))
  | .sub, a, b => .ok (float (a - b))
  | .mul, a, b => .ok (float (a * b))
  | .div, a, b => .ok (float (a / b))
  | .rem, a, b => .ok (float (floatRem a b))
  | .pow, a, b => .ok (float (Float.pow a b))
  | .lt, a, b => .ok (bool (a < b))
  | .le, a, b => .ok (bool (a ≤ b))
  | .gt, a, b => .ok (bool (a > b))
  | .ge, a, b => .ok (bool (a ≥ b))
  | .eq, a, b => .ok (bool (a == b))
  | .ne, a, b => .ok (bool (a != b))
  | _, _, _ => .error .typeMismatch

/-- The order of texts is that of their code points. -/
def textOp : BinaryOp → String → String → Except Fault Value
  | .add, a, b => .ok (text (a ++ b))
  | .lt, a, b => .ok (bool (a < b))
  | .le, a, b => .ok (bool (a < b || a == b))
  | .gt, a, b => .ok (bool (b < a))
  | .ge, a, b => .ok (bool (b < a || a == b))
  | .eq, a, b => .ok (bool (a == b))
  | .ne, a, b => .ok (bool (a != b))
  | _, _, _ => .error .typeMismatch

def boolOp : BinaryOp → Bool → Bool → Except Fault Value
  | .lt, a, b => .ok (bool (!a && b))
  | .le, a, b => .ok (bool (!a || b))
  | .gt, a, b => .ok (bool (a && !b))
  | .ge, a, b => .ok (bool (a || !b))
  | .eq, a, b => .ok (bool (a == b))
  | .ne, a, b => .ok (bool (a != b))
  | _, _, _ => .error .typeMismatch

mutual
/-- Equality by content; values of different kinds differ, but numbers compare by value. -/
def same : Value → Value → Bool
  | unit, unit => true
  | .bool a, .bool b => a == b
  | int a, int b => a == b
  | float a, float b => a == b
  | int a, float b => ofInt a == b
  | float a, int b => a == ofInt b
  | char a, char b => a == b
  | text a, text b => a == b
  | char a, text b => a.toString == b
  | text a, char b => a == b.toString
  | array as, array bs => sameItems as bs
  | map as, map bs => sameFields as bs
  | range a b c, range a' b' c' => a == a' && b == b' && c == c'
  | _, _ => false
def sameItems : List Value → List Value → Bool
  | [], [] => true
  | a :: as, b :: bs => same a b && sameItems as bs
  | _, _ => false
def sameFields : List (String × Value) → List (String × Value) → Bool
  | [], [] => true
  | (k, a) :: as, (k', b) :: bs => k == k' && same a b && sameFields as bs
  | _, _ => false
end

/-- Whether a text stands within another one. -/
def isWithin (part : List Char) : List Char → Bool
  | [] => part.isEmpty
  | c :: cs => part.isPrefixOf (c :: cs) || isWithin part cs

def holds (container v : Value) : Except Fault Bool :=
  match container, v with
  | array items, v => .ok (items.any (same v))
  | map fields, text k => .ok (fields.any (·.1 == k))
  | map fields, char c => .ok (fields.any (·.1 == c.toString))
  | text s, text t => .ok (isWithin t.toList s.toList)
  | text s, char c => .ok (s.toList.contains c)
  | range low high closed, int i => .ok (low ≤ i && (if closed then i ≤ high else i < high))
  | _, _ => .error .typeMismatch

/-- Whether two values are of one kind that has no order. -/
def sameKind : Value → Value → Bool
  | array _, array _ => true
  | map _, map _ => true
  | range .., range .. => true
  | _, _ => false

/-- The result of an operator between values without an operation of their own. -/
def otherwise (op : BinaryOp) (a b : Value) : Except Fault Value :=
  match op with
  | .eq => .ok (bool (same a b))
  | .ne => .ok (bool (!same a b))
  | .lt | .le | .gt | .ge => if sameKind a b then .error .typeMismatch else .ok (bool false)
  | .isIn => (holds b a).map bool
  | .add =>
    match a, b with
    | text s, v => .ok (text (s ++ v.toText))
    | v, text s => .ok (text (v.toText ++ s))
    | char c, char d => .ok (text (c.toString ++ d.toString))
    | array as, array bs => .ok (array (as ++ bs))
    | map as, map bs => .ok (map (bs.foldl (fun acc (k, v) => put k v acc) as))
    | _, _ => .error .typeMismatch
  | _ => .error .typeMismatch

def apply (op : BinaryOp) (a b : Value) : Except Fault Value :=
  let result := match op, a, b with
    | .isIn, a, b => otherwise .isIn a b
    | op, int x, int y => intOp op x y
    | op, float x, float y => floatOp op x y
    | op, int x, float y => floatOp op (ofInt x) y
    | op, float x, int y => floatOp op x (ofInt y)
    | op, text x, text y => textOp op x y
    | .add, a, b => otherwise .add a b
    | op, char x, char y => textOp op x.toString y.toString
    | op, char x, text y => textOp op x.toString y
    | op, text x, char y => textOp op x y.toString
    | op, .bool x, .bool y => boolOp op x y
    | op, a, b => otherwise op a b
  match result with
  | .ok v => if v.isSmall then .ok v else .error .tooLarge
  | e => e

/-- Combines an old value with a new one; an array takes any value as an item. -/
def combine (op : BinaryOp) (old new : Value) : Except Fault Value :=
  match op, old, new with
  | .add, array _, array _ => apply .add old new
  | .add, array items, v => apply .add (array items) (array [v])
  | op, old, new => apply op old new

def unary (op : UnaryOp) (v : Value) : Except Fault Value :=
  match op, v with
  | .neg, int i => checked (-i)
  | .neg, float x => .ok (float (-x))
  | .plus, int i => .ok (int i)
  | .plus, float x => .ok (float x)
  | .not, .bool b => .ok (.bool !b)
  | _, _ => .error .typeMismatch

end Operator

/-! ### Parts of values -/

/-- A step from a value to one of its parts. -/
inductive Access where
  | prop (name : String)
  | index (v : Value)

namespace Access

open Value

/-- The place of an index in a list of a given length; a negative index counts from the end. -/
def place? (n : Nat) (i : Int) : Option Nat :=
  if 0 ≤ i then (if i < n then some i.toNat else none)
  else if i.natAbs ≤ n then some (n - i.natAbs) else none

/-- The part of a value. A missing part of a map is `()`. -/
def get (v : Value) : Access → Except Fault Value
  | .prop name =>
    match v, name with
    | map fields, name => .ok (Value.get name fields)
    | text s, "len" => .ok (int s.length)
    | array items, "len" => .ok (int items.length)
    | _, name => .error (.noProperty name)
  | .index i =>
    match v, i with
    | map fields, text k => .ok (Value.get k fields)
    | array items, int i =>
      match (place? items.length i).bind (items[·]?) with
      | some v => .ok v
      | none => .error .badIndex
    | text s, int i =>
      match (place? s.length i).bind (s.toList[·]?) with
      | some c => .ok (char c)
      | none => .error .badIndex
    | _, _ => .error .badIndex

/-- The value with another part. -/
def set (v new : Value) : Access → Except Fault Value
  | .prop name =>
    match v with
    | map fields => .ok (map (put name new fields))
    | _ => .error (.noProperty name)
  | .index i =>
    match v, i with
    | map fields, text k => .ok (map (put k new fields))
    | array items, int i =>
      match place? items.length i with
      | some n => .ok (array (items.set n new))
      | none => .error .badIndex
    | text s, int i =>
      match place? s.length i, new with
      | some n, char c => .ok (text (String.ofList (s.toList.set n c)))
      | _, _ => .error .badIndex
    | _, _ => .error .badIndex

/-- The part at the end of a path. -/
def getPath (v : Value) : List Access → Except Fault Value
  | [] => .ok v
  | a :: path => do getPath (← get v a) path

/-- The value with another part at the end of a path. -/
def setPath (v new : Value) : List Access → Except Fault Value
  | [] => .ok new
  | [a] => set v new a
  | a :: path => do
    let inner ← setPath (← get v a) new path
    set v inner a

end Access

end Pipeworks.Script
