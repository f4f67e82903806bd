import Pipeworks.Decimal.Layout
import Pipeworks.Keyed
/-!
JSON values. An object is a list of fields in the order in which they are written; a *free* value, one that
was read without a type, has its keys in ascending order and each key once (`Json.Canonical`).
-/
namespace Pipeworks

/-- A number is an integer of 64 bits, signed or unsigned, or a finite double. -/
inductive Json.Number where
  | int (i : Int)
  | float (x : Float)

inductive Json where
  | null
  | bool (b : Bool)
  | num (n : Json.Number)
  | str (s : String)
  | arr (items : List Json)
  | obj (fields : List (String × Json))

namespace Json

instance : Inhabited Json := ⟨.null⟩

/-- The integers that a number can hold exactly: those of 64 bits, with or without sign. -/
def fitsInteger (i : Int) : Bool :=
  decide (-9223372036854775808 ≤ i) && decide (i < 18446744073709551616)

abbrev int (i : Int) : Json := .num (.int i)

abbrev nat (n : Nat) : Json := .num (.int n)

abbrev float (x : Float) : Json := .num (.float x)

/-- A number for a double; one that is not finite has no JSON text and becomes `null`. -/
def ofFloat (x : Float) : Json :=
  if x.isNaN || x.isInf then .null else .num (.float x)

abbrev strs (xs : List String) : Json := .arr (xs.map .str)

def ofOption {α : Type} (f : α → Json) : Option α → Json
  | none => .null
  | some a => f a

def lookup? (k : String) : List (String × Json) → Option Json
  | [] => none
  | (k', v) :: rest => if k' = k then some v else lookup? k rest

def field? (j : Json) (k : String) : Option Json :=
  match j with
  | .obj fields => lookup? k fields
  | _ => none

/-- Fields of which some may be absent; an absent one is left out of the object. -/
def present (fields : List (String × Option Json)) : List (String × Json) :=
  fields.filterMap fun (k, v) => v.map (k, ·)

mutual
/-- Keys ascend strictly in every object of the value. -/
def Canonical : Json → Prop
  | .arr items => CanonicalItems items
  | .obj fields => (fields.map Prod.fst).Pairwise (· < ·) ∧ CanonicalFields fields
  | _ => True
def CanonicalItems : List Json → Prop
  | [] => True
  | x :: xs => Canonical x ∧ CanonicalItems xs
def CanonicalFields : List (String × Json) → Prop
  | [] => True
  | (_, x) :: xs => Canonical x ∧ CanonicalFields xs
end

mutual
/-- How many containers the value nests; a scalar nests none. -/
def depth : Json → Nat
  | .arr items => depthItems items + 1
  | .obj fields => depthFields fields + 1
  | _ => 0
def depthItems : List Json → Nat
  | [] => 0
  | x :: xs => max (depth x) (depthItems xs)
def depthFields : List (String × Json) → Nat
  | [] => 0
  | (_, x) :: xs => max (depth x) (depthFields xs)
end

end Json

end Pipeworks
