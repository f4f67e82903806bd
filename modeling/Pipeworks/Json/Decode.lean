import Pipeworks.Json.Parser
/-!
Typed reading of a tree. A `Decoder α` walks a tree from left to right and gives a value of `α` or the first
fault it meets, be it of the text or of the type.
-/
namespace Pipeworks.Json

/-- What stands where something else was expected. -/
inductive Found where
  | null
  | bool (b : Bool)
  | integer (i : Int)
  | float (x : Float)
  | string (s : String)
  | sequence
  | map

def Found.text : Found → String
  | null => "null"
  | bool b => s!"boolean `{b}`"
  | integer i => s!"integer `{i}`"
  | float x => "floating point `" ++ Decimal.pointed.float x ++ "`"
  | string s => "string \"" ++ String.ofList (s.toList.flatMap debugged) ++ "\""
  | sequence => "sequence"
  | map => "map"
where
  /-- A character within the quotes of a message. -/
  debugged (c : Char) : List Char :=
    if c = '"' then ['\\', '"']
    else if c = '\\' then ['\\', '\\']
    else if c = '\n' then ['\\', 'n']
    else if c = '\r' then ['\\', 'r']
    else if c = '\t' then ['\\', 't']
    else if c = '\x00' then ['\\', '0']
    else if c.toNat < 32 ∨ c.toNat = 127 then
      ['\\', 'u', '\x7b'] ++ Nat.toDigits 16 c.toNat ++ ['\x7d']
    else [c]

/-- Why a tree is no value of the type. -/
inductive DecodeError where
  | malformed (e : SyntaxError)
  | invalidType (found : Found) (expected : String)
  | invalidValue (found : Found) (expected : String)
  | invalidLength (n : Nat) (expected : String)
  | unknownVariant (name : String) (variants : List String)
  | missingField (name : String)
  | duplicateField (name : String)
  /-- None of several readings of a value of this type succeeded. -/
  | noReading (type : String)
  /-- A text was there, but it does not denote a value. -/
  | refused (reason : String)

namespace DecodeError

def alternatives (names : List String) : String :=
  match names.map fun n => "`" ++ n ++ "`" with
  | [a] => a
  | [a, b] => a ++ " or " ++ b
  | xs => "one of " ++ ", ".intercalate xs

def message : DecodeError → String
  | malformed e => e.message
  | invalidType f expected => "invalid type: " ++ f.text ++ ", expected " ++ expected
  | invalidValue f expected => "invalid value: " ++ f.text ++ ", expected " ++ expected
  | invalidLength n expected => s!"invalid length {n}, expected {expected}"
  | unknownVariant name variants => s!"unknown variant `{name}`, expected " ++ alternatives variants
  | missingField name => s!"missing field `{name}`"
  | duplicateField name => s!"duplicate field `{name}`"
  | noReading type => s!"data did not match any variant of untagged enum {type}"
  | refused reason => reason

end DecodeError

/-- Where the tree comes from: a text being read, a value at hand, or a part of a text that was kept for
later. The three differ in a few faults only. -/
inductive Origin where
  | text
  | value
  | kept
deriving DecidableEq, Repr

/-- The origin of a tree, and how many containers may still be opened, the current one counted. -/
structure Place where
  origin : Origin
  depth : Nat

abbrev Decoder (α : Type) := Place → Doc → Except DecodeError α

namespace Place

def top (origin : Origin) : Place := ⟨origin, nesting⟩

/-- The place inside a container. Only a text has a limit. -/
def enter (p : Place) : Except DecodeError Place :=
  match p.origin with
  | .text => if p.depth ≤ 1 then .error (.malformed .recursionLimit) else .ok ⟨.text, p.depth - 1⟩
  | o => .ok ⟨o, p.depth⟩

end Place

namespace Doc

/-- What stands at the root of a tree. -/
def found : Doc → Except SyntaxError Found
  | .null => .ok .null
  | .bool b => .ok (.bool b)
  | .number r =>
    match r with
    | .ok (.int i) => .ok (.integer i)
    | .ok (.float x) => .ok (.float x)
    | .error e => .error e
  | .text r => r.map .string
  | .array .. => .ok .sequence
  | .object .. => .ok .map
  | .missing => .error .eofValue
  | .brokenText e _ => .error e
  | .broken e _ => .error e

/-- The fault of a tree that is not what was expected. -/
def mismatch (x : Doc) (expected : String) : DecodeError :=
  match x.found with
  | .ok f => .invalidType f expected
  | .error e => .malformed e

mutual
def height : Doc → Nat
  | .array items _ => heightItems items + 1
  | .object members _ _ => heightMembers members + 1
  | _ => 0
def heightItems : List Doc → Nat
  | [] => 0
  | x :: xs => max (height x) (heightItems xs)
def heightMembers : List (Except SyntaxError String × Doc) → Nat
  | [] => 0
  | (_, x) :: xs => max (height x) (heightMembers xs)
end

/-- Checks that the tree is a free value, when it is kept for later. -/
def keep (p : Place) (x : Doc) : Except DecodeError Unit :=
  match p.origin with
  | .text =>
    match x.toJson p.depth with
    | .ok _ => .ok ()
    | .error e => .error (.malformed e)
  | _ => .ok ()

/-- Passes over a value that nobody asked for. -/
def ignore (x : Doc) : Except DecodeError Unit :=
  x.skim.mapError .malformed

end Doc

namespace Decoder

variable {α : Type}

def integer (low high : Int) (expected : String) : Decoder Int := fun _ x =>
  match x with
  | .number (.ok (.int i)) =>
    if low ≤ i ∧ i ≤ high then .ok i else .error (.invalidValue (.integer i) expected)
  | x => .error (x.mismatch expected)

/-- A signed integer of 64 bits. -/
def int64 : Decoder Int := integer (-9223372036854775808) 9223372036854775807 "i64"

def count : Decoder Nat := fun p x => (integer 0 18446744073709551615 "usize" p x).map Int.toNat

/-- An unsigned integer of 64 bits. -/
def word64 : Decoder Nat := fun p x => (integer 0 18446744073709551615 "u64" p x).map Int.toNat

def floatOfInt (i : Int) : Float :=
  if i < 0 then -(i.natAbs.toUInt64.toFloat) else i.toNat.toUInt64.toFloat

/-- A double; an integer will do. -/
def float : Decoder Float := fun _ x =>
  match x with
  | .number (.ok (.int i)) => .ok (floatOfInt i)
  | .number (.ok (.float f)) => .ok f
  | x => .error (x.mismatch "f64")

def bool : Decoder Bool := fun _ x =>
  match x with
  | .bool b => .ok b
  | x => .error (x.mismatch "a boolean")

def string : Decoder String := fun _ x =>
  match x with
  | .text (.ok s) => .ok s
  | x => .error (x.mismatch "a string")

/-- A value, or nothing for `null`. -/
def option (d : Decoder α) : Decoder (Option α) := fun p x =>
  match x with
  | .null => .ok none
  | x => (d p x).map some

def json : Decoder Json := fun p x =>
  let depth := match p.origin with
    | .text => p.depth
    | _ => x.height + 1
  (x.toJson depth).mapError .malformed

def each (d : Decoder α) (p : Place) : List Doc → Except DecodeError (List α)
  | [] => .ok []
  | x :: xs => do
    let a ← d p x
    return a :: (← each d p xs)

/-- What is wrong after the last item or member. -/
def closing : Option (SyntaxError × SyntaxError) → Except DecodeError Unit
  | none => .ok ()
  | some (e, _) => .error (.malformed e)

def list (d : Decoder α) : Decoder (List α) := fun p x =>
  match x with
  | .array items fault => do
    let p ← p.enter
    let xs ← each d p items
    closing fault
    return xs
  | x => .error (x.mismatch "a sequence")

def eachMember (d : Decoder α) (p : Place) (acc : List (String × α)) :
    List (Except SyntaxError String × Doc) → Except DecodeError (List (String × α))
  | [] => .ok acc
  | (k, x) :: rest => do
    let key ← k.mapError .malformed
    let a ← d p x
    eachMember d p (Keyed.putAscending key a acc) rest

/-- A mapping with text keys, in ascending key order; the last of two values under one key stays. -/
def map (d : Decoder α) : Decoder (List (String × α)) := fun p x =>
  match x with
  | .object members fault _ => do
    let p ← p.enter
    let fields ← eachMember d p [] members
    closing fault
    return fields
  | x => .error (x.mismatch "a map")

def named (names : List String) (get : String → Option α) (s : String) : Except DecodeError α :=
  match get s with
  | some a => .ok a
  | none => .error (.unknownVariant s names)

/-- The empty value that may follow a name. -/
def unit (x : Doc) : Except DecodeError Unit :=
  match x with
  | .null => .ok ()
  | x => .error (x.mismatch "unit")

/-- One of a set of names, as a text or as the single key of an object whose value is `null`. -/
def variant (names : List String) (get : String → Option α) : Decoder α := fun p x =>
  match x, p.origin with
  | .text r, _ => do named names get (← r.mapError .malformed)
  | .brokenText e _, _ => .error (.malformed e)
  | .missing, _ => .error (.malformed .eofValue)
  | .object members fault odd, .text => do
    let _ ← p.enter
    match members with
    | [] =>
      match odd, fault with
      | some key, _ => .error (key.mismatch "variant identifier")
      | none, none => .error (.malformed .expectedValue)
      | none, some (.eofObject, _) => .error (.malformed .eofValue)
      | none, some (e, _) => .error (.malformed e)
    | (key, x) :: rest => do
      let a ← named names get (← key.mapError .malformed)
      unit x
      match rest, fault with
      | [], none => .ok a
      | [], some (.eofObject, _) => .error (.malformed .eofObject)
      | _, _ => .error (.malformed .expectedValue)
  | _, .text => .error (.malformed .expectedValue)
  | .object [(key, x)] none _, _ => do
    let a ← named names get (← key.mapError .malformed)
    unit x
    return a
  | .object .., _ => .error (.invalidValue .map "map with a single key")
  | x, _ => .error (x.mismatch "string or map")

/-- A value that is kept first and then read in a second place. -/
def kept (d : Decoder α) : Decoder α := fun p x => do
  x.keep p
  d (.top .kept) x

end Decoder

/-- How a structure of type `α` is read, field by field, in the order of the text: `Draft` holds the fields
read so far. -/
structure Record (Draft α : Type) where
  name : String
  /-- The fields in the order in which an array gives them. -/
  fields : List String
  blank : Draft
  /-- Reads a field into the draft; `none` if there is no such field. -/
  read : String → Place → Doc → Draft → Option (Except DecodeError Draft)
  /-- The structure, if no field that must be there is missing. -/
  finish : Draft → Except DecodeError α

namespace Record

variable {Draft α : Type}

/-- Sets a field that must not be set twice. -/
def once {β : Type} (name : String) (old : Option β) (d : Decoder β) (p : Place) (x : Doc)
    (set : Option β → Draft) : Option (Except DecodeError Draft) :=
  some (if old.isSome then .error (.duplicateField name) else (d p x).map fun b => set (some b))

/-- The value of a field that must be there. -/
def need {β : Type} (name : String) : Option β → Except DecodeError β
  | some b => .ok b
  | none => .error (.missingField name)

def readMembers (r : Record Draft α) (p : Place) (draft : Draft) :
    List (Except SyntaxError String × Doc) → Except DecodeError Draft
  | [] => .ok draft
  | (k, x) :: rest => do
    let key ← k.mapError .malformed
    match r.read key p x draft with
    | some result => readMembers r p (← result) rest
    | none => do
      x.ignore
      readMembers r p draft rest

/-- Reads the items of an array as fields in order; the fields left without an item, and the items left
without a field, come with the draft. -/
def readItems (r : Record Draft α) (p : Place) (fault : Option (SyntaxError × SyntaxError)) :
    List String → List Doc → Draft → Except DecodeError (Draft × List Doc)
  | [], items, draft => .ok (draft, items)
  | _ :: _, [], draft => do
    Decoder.closing fault
    return (draft, [])
  | f :: fs, x :: xs, draft =>
    match r.read f p x draft with
    | some result => do readItems r p fault fs xs (← result)
    | none => readItems r p fault fs xs draft

def elements (n : Nat) : String := if n = 1 then "1 element" else s!"{n} elements"

/-- What is wrong with the items after the last field. -/
def surplus (p : Place) (fields items : Nat) (left : List Doc)
    (fault : Option (SyntaxError × SyntaxError)) : Except DecodeError Unit :=
  match left, p.origin with
  | [], .text =>
    match fault with
    | none => .ok ()
    | some (.eofList, _) => .error (.malformed .eofList)
    | some (.trailingComma, _) => .error (.malformed .trailingComma)
    | some _ => .error (.malformed .trailingCharacters)
  | _ :: _, .text => .error (.malformed .trailingCharacters)
  | [], _ => .ok ()
  | _ :: _, .value => .error (.invalidLength items "fewer elements in array")
  | _ :: _, .kept => .error (.invalidLength items (elements fields ++ " in sequence"))

/-- A missing field of an array is a missing item. -/
def inArray (r : Record Draft α) (a : Except DecodeError α) : Except DecodeError α :=
  match a with
  | .error (.missingField f) =>
    .error (.invalidLength (r.fields.idxOf f)
      (s!"struct {r.name} with " ++ elements r.fields.length))
  | a => a

/-- Reads a structure from an object or from an array of its fields. -/
def decoder (r : Record Draft α) : Decoder α := fun p x =>
  match x with
  | .object members fault _ => do
    let p ← p.enter
    let draft ← r.readMembers p r.blank members
    Decoder.closing fault
    r.finish draft
  | .array items fault => do
    let p ← p.enter
    let (draft, left) ← r.readItems p fault r.fields items r.blank
    let a ← r.inArray (r.finish draft)
    surplus p r.fields.length items.length left fault
    return a
  | x => .error (x.mismatch ("struct " ++ r.name))

end Record

/-- Reads a typed value from a text and nothing after it. -/
def Document.decode {α : Type} (d : Decoder α) (doc : Document) (origin : Origin := .text) :
    Except DecodeError α := do
  let a ← d (.top origin) doc.root
  if doc.trailing then throw (.malformed .trailingCharacters)
  return a

def decodeText {α : Type} (d : Decoder α) (s : String) : Except DecodeError α :=
  (Document.ofText s).decode d

def decodeBytes {α : Type} (d : Decoder α) (b : ByteArray) : Except DecodeError α :=
  (Document.ofBytes b).decode d

def decodeJson {α : Type} (d : Decoder α) (j : Json) : Except DecodeError α :=
  d (.top .value) (Doc.ofJson j)

end Pipeworks.Json
