import Pipeworks.Script.Operator
import Pipeworks.Text.Blank
/-!
The functions that every script has. A function may change its first argument, if that is a variable or a part
of one.
-/
namespace Pipeworks.Script.Builtin

open Value

inductive LogLine where
  | info (s : String)
  | debug (s : String)
deriving Repr, DecidableEq

namespace LogLine

def text : LogLine → String
  | info s => "info: " ++ s
  | debug s => "debug: " ++ s

end LogLine

/-- What a function gives: its result, its first argument as it is afterwards, and what it printed. -/
structure Outcome where
  result : Value
  first : Option Value := none
  printed : Option LogLine := none

/-- Letters whose other case is a fixed distance away: first and last of the lower case letters, and the
distance down to their upper case. -/
def caseRanges : List (Nat × Nat × Nat) :=
  [(0x61, 0x7A, 32), (0xE0, 0xF6, 32), (0xF8, 0xFE, 32), (0x3B1, 0x3C1, 32), (0x3C3, 0x3CB, 32),
    (0x430, 0x44F, 32), (0x450, 0x45F, 80), (0x561, 0x586, 48), (0x24D0, 0x24E9, 26), (0xFF41, 0xFF5A, 32)]

/-- Blocks in which each upper case letter is followed by its lower case, and whether the upper case ones are
even. -/
def casePairs : List (Nat × Nat × Nat) :=
  [(0x100, 0x12F, 0), (0x132, 0x137, 0), (0x139, 0x148, 1), (0x14A, 0x177, 0), (0x179, 0x17E, 1),
    (0x1CD, 0x1DC, 1), (0x1DE, 0x1EF, 0), (0x1F8, 0x21F, 0), (0x222, 0x233, 0), (0x370, 0x373, 0),
    (0x3D8, 0x3EF, 0), (0x460, 0x481, 0), (0x48A, 0x4BF, 0), (0x4C1, 0x4CE, 1), (0x4D0, 0x52F, 0),
    (0x1E00, 0x1E95, 0), (0x1EA0, 0x1EFF, 0)]

def upper (c : Char) : List Char :=
  let n := c.toNat
  if n = 0xDF then ['S', 'S']
  else if n = 0xFF then [Char.ofNat 0x178]
  else if n = 0xB5 then [Char.ofNat 0x39C]
  else if n = 0x131 then ['I']
  else if n = 0x17F then ['S']
  else if n = 0x3C2 then [Char.ofNat 0x3A3]
  else match caseRanges.find? fun (a, b, _) => a ≤ n ∧ n ≤ b with
    | some (_, _, d) => [Char.ofNat (n - d)]
    | none =>
      match casePairs.find? fun (a, b, _) => a ≤ n ∧ n ≤ b with
      | some (_, _, p) => [if n % 2 = p then c else Char.ofNat (n - 1)]
      | none => [c]

def lower (c : Char) : List Char :=
  let n := c.toNat
  if n = 0x178 then [Char.ofNat 0xFF]
  else if n = 0x130 then ['i', Char.ofNat 0x307]
  else match caseRanges.find? fun (a, b, d) => a ≤ n + d ∧ n + d ≤ b with
    | some (_, _, d) => [Char.ofNat (n + d)]
    | none =>
      match casePairs.find? fun (a, b, _) => a ≤ n ∧ n ≤ b with
      | some (_, _, p) => [if n % 2 = p then Char.ofNat (n + 1) else c]
      | none => [c]

/-- A signed decimal integer, with blanks around it. -/
def parseInt (s : String) : Except Fault Value :=
  let digits := fun (negative : Bool) (cs : List Char) =>
    if cs.isEmpty || !cs.all Char.isDigit then Except.error Fault.badNumber
    else
      let n : Int := cs.foldl (fun acc c => acc * 10 + (c.toNat - '0'.toNat)) 0
      let i := if negative then -n else n
      if fits i then .ok (int i) else .error .badNumber
  match Text.trim s.toList with
  | '+' :: cs => digits false cs
  | '-' :: cs => digits true cs
  | cs => digits false cs

/-- A double without its fraction, if it is an integer of a script. -/
def truncated (x : Float) : Except Fault Value :=
  if x.isNaN || x ≥ 9223372036854775808.0 || x < -9223372036854775808.0 then .error .overflow
  else if x < 0 then .ok (int (-((-x).toUInt64.toNat : Int)))
  else .ok (int x.toUInt64.toNat)

/-- Applies a function to its arguments; `none` if there is no such function for them. -/
def apply (name : String) (args : List Value) : Option (Except Fault Outcome) :=
  let value := fun (v : Value) => some (Except.ok { result := v : Outcome })
  let result := fun (r : Except Fault Value) => some (r.map fun v => { result := v : Outcome })
  match name, args with
  | "print", [] => some (.ok ⟨unit, none, some (.info "")⟩)
  | "debug", [] => some (.ok ⟨unit, none, some (.debug "")⟩)
  | "print", [v] => some (.ok ⟨unit, none, some (.info v.toText)⟩)
  | "debug", [v] => some (.ok ⟨unit, none, some (.debug v.debugText)⟩)
  | "type_of", [v] => value (text v.typeName)
  | "to_string", [v] => value (text v.toText)
  | "abs", [int i] => result (Operator.checked i.natAbs)
  | "abs", [float x] => value (float x.abs)
  | "parse_int", [text s] => result (parseInt s)
  | "to_int", [int i] => value (int i)
  | "to_int", [float x] => result (truncated x)
  | "to_float", [int i] => value (float (Operator.ofInt i))
  | "to_float", [float x] => value (float x)
  | "to_upper", [text s] => value (text (String.ofList (s.toList.flatMap upper)))
  | "to_lower", [text s] => value (text (String.ofList (s.toList.flatMap lower)))
  | "to_upper", [char c] => value (char ((upper c).headD c))
  | "to_lower", [char c] => value (char ((lower c).headD c))
  | "len", [text s] => value (int s.length)
  | "len", [array items] => value (int items.length)
  | "len", [map fields] => value (int fields.length)
  | "contains", [container, v] =>
    match Operator.holds container v with
    | .ok b => value (bool b)
    | .error _ => none
  | "keys", [map fields] => value (array (fields.map (text ·.1)))
  | "values", [map fields] => value (array (fields.map (·.2)))
  | "remove", [map fields, text k] =>
    some (.ok ⟨Value.get k fields, some (map (fields.filter (·.1 != k))), none⟩)
  | "remove", [array items, int i] =>
    match Access.place? items.length i with
    | some n => some (.ok ⟨(items[n]?).getD unit, some (array (items.eraseIdx n)), none⟩)
    | none => value unit
  | "push", [array items, v] =>
    let grown := array (items ++ [v])
    some (if grown.isSmall then .ok ⟨unit, some grown, none⟩ else .error .tooLarge)
  | "pop", [array items] => some (.ok ⟨items.getLast?.getD unit, some (array items.dropLast), none⟩)
  | "reverse", [array items] => some (.ok ⟨unit, some (array items.reverse), none⟩)
  | _, _ => none

end Pipeworks.Script.Builtin
