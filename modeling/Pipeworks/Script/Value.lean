import Pipeworks.Json.Basic
/-!
Values of scripts: their text, and the way from and to JSON.
-/
namespace Pipeworks.Script

/-- A value. Maps have their keys in ascending order, each once. Integers have 64 bits. -/
inductive Value where
  | unit
  | bool (b : Bool)
  | int (i : Int)
  | float (x : Float)
  | char (c : Char)
  | text (s : String)
  | array (items : List Value)
  | map (fields : List (String × Value))
  /-- The integers from the first up to the second, which belongs to them if the range is closed. -/
  | range (low high : Int) (closed : Bool)

namespace Value

instance : Inhabited Value := ⟨.unit⟩

/-- The integers of a script. -/
def fits (i : Int) : Bool := decide (-9223372036854775808 ≤ i) && decide (i ≤ 9223372036854775807)

def typeName : Value → String
  | unit => "()"
  | bool _ => "bool"
  | int _ => "i64"
  | float _ => "f64"
  | char _ => "char"
  | text _ => "string"
  | array _ => "array"
  | map _ => "map"
  | range _ _ false => "range"
  | range _ _ true => "range="

/-- A text in quotes, as it stands within a container. -/
def quoted (s : String) : String :=
  "\"" ++ String.join (s.toList.map fun c =>
    if c = '"' then "\\\"" else if c = '\\' then "\\\\" else if c = '\n' then "\\n"
    else if c = '\r' then "\\r" else if c = '\t' then "\\t" else c.toString) ++ "\""

def rangeText (low high : Int) (closed : Bool) : String :=
  toString low ++ (if closed then "..=" else "..") ++ toString high

mutual
/-- The text of a value within a container, or of one that is debugged. -/
def debugText : Value → String
  | unit => "()"
  | bool b => toString b
  | int i => toString i
  | float x => Decimal.script.float x
  | char c => "'" ++ c.toString ++ "'"
  | text s => quoted s
  | array items => "[" ++ ", ".intercalate (debugItems items) ++ "]"
  | map fields => "#\x7b" ++ ", ".intercalate (debugFields fields) ++ "\x7d"
  | range low high closed => rangeText low high closed
def debugItems : List Value → List String
  | [] => []
  | v :: vs => debugText v :: debugItems vs
def debugFields : List (String × Value) → List String
  | [] => []
  | (k, v) :: vs => (quoted k ++ ": " ++ debugText v) :: debugFields vs
end

/-- The text that a value becomes: nothing for `()`, a text or character without quotes. -/
def toText : Value → String
  | unit => ""
  | text s => s
  | char c => c.toString
  | v => v.debugText

mutual
/-- The value of a JSON value; an integer beyond 63 bits becomes a float. -/
def ofJson : Json → Value
  | .null => unit
  | .bool b => bool b
  | .num (.int i) => if fits i then int i else float i.toNat.toUInt64.toFloat
  | .num (.float x) => float x
  | .str s => text s
  | .arr items => array (ofItems items)
  | .obj fields => map (ofFields fields)
def ofItems : List Json → List Value
  | [] => []
  | x :: xs => ofJson x :: ofItems xs
def ofFields : List (String × Json) → List (String × Value)
  | [] => []
  | (k, x) :: xs => (k, ofJson x) :: ofFields xs
end

mutual
/-- The JSON value of a value. A range has none; `()` and floats that are not finite are `null`. -/
def toJson? : Value → Option Json
  | unit => some .null
  | bool b => some (.bool b)
  | int i => some (.int i)
  | float x => some (Json.ofFloat x)
  | char c => some (.str c.toString)
  | text s => some (.str s)
  | array items => (toItems? items).map .arr
  | map fields => (toFields? fields).map .obj
  | range .. => none
def toItems? : List Value → Option (List Json)
  | [] => some []
  | v :: vs => do
    let x ← toJson? v
    return x :: (← toItems? vs)
def toFields? : List (String × Value) → Option (List (String × Json))
  | [] => some []
  | (k, v) :: vs => do
    let x ← toJson? v
    return (k, x) :: (← toFields? vs)
end

def get (k : String) : List (String × Value) → Value
  | [] => unit
  | (k', v) :: rest => if k' = k then v else get k rest

/-- Sets a field of a map, in place of an older one. -/
def put (k : String) (v : Value) : List (String × Value) → List (String × Value)
  | [] => [(k, v)]
  | (k', v') :: rest =>
    if k < k' then (k, v) :: (k', v') :: rest
    else if k = k' then (k, v) :: rest
    else (k', v') :: put k v rest

/-- The contents of a value that count towards its limits: items, fields, and bytes of text. -/
structure Size where
  items : Nat := 0
  fields : Nat := 0
  bytes : Nat := 0

def Size.add (a b : Size) : Size := ⟨a.items + b.items, a.fields + b.fields, a.bytes + b.bytes⟩

mutual
def size : Value → Size
  | text s => ⟨0, 0, s.utf8ByteSize⟩
  | array items => sizeItems items
  | map fields => sizeFields fields
  | _ => {}
def sizeItems : List Value → Size
  | [] => {}
  | v :: vs => ((size v).add ⟨1, 0, 0⟩).add (sizeItems vs)
def sizeFields : List (String × Value) → Size
  | [] => {}
  | (_, v) :: vs => ((size v).add ⟨0, 1, 0⟩).add (sizeFields vs)
end

/-- A value may hold 65536 bytes of text, 10000 items and 10000 fields. -/
def isSmall (v : Value) : Bool :=
  let s := v.size
  decide (s.bytes ≤ 65536) && decide (s.items ≤ 10000) && decide (s.fields ≤ 10000)

end Value

end Pipeworks.Script
