import Pipeworks.Json.Basic
/-!
What a reader sees of a JSON text: the tree of the text as far as it can be followed, with each fault at the
place where it is met. A typed reader walks this tree from left to right, so the first fault on its way, be it
of the text or of the type, is the one it reports.

Two readers walk a text. The strict one wants the values; the one that skims passes over a value nobody asked
for, and is content with less: it takes lone surrogates, numbers beyond every range and stray bytes. So a
scalar may be refused by the strict reader while the text goes on, and where both stop they may name
different faults.
-/
namespace Pipeworks.Json

inductive SyntaxError where
  | eofList | eofObject | eofString | eofValue
  | expectedColon | expectedListCommaOrEnd | expectedObjectCommaOrEnd
  | expectedIdent | expectedValue
  | invalidEscape | invalidNumber | numberOutOfRange | invalidCodePoint
  | controlCharacter | keyMustBeAString | loneLeadingSurrogate
  | trailingComma | trailingCharacters | unexpectedEndOfHexEscape | recursionLimit
deriving DecidableEq, Repr

def SyntaxError.message : SyntaxError → String
  | eofList => "EOF while parsing a list"
  | eofObject => "EOF while parsing an object"
  | eofString => "EOF while parsing a string"
  | eofValue => "EOF while parsing a value"
  | expectedColon => "expected `:`"
  | expectedListCommaOrEnd => "expected `,` or `]`"
  | expectedObjectCommaOrEnd => "expected `,` or `\x7d`"
  | expectedIdent => "expected ident"
  | expectedValue => "expected value"
  | invalidEscape => "invalid escape"
  | invalidNumber => "invalid number"
  | numberOutOfRange => "number out of range"
  | invalidCodePoint => "invalid unicode code point"
  | controlCharacter => "control character (\\u0000-\\u001F) found while parsing a string"
  | keyMustBeAString => "key must be a string"
  | loneLeadingSurrogate => "lone leading surrogate in hex escape"
  | trailingComma => "trailing comma"
  | trailingCharacters => "trailing characters"
  | unexpectedEndOfHexEscape => "unexpected end of hex escape"
  | recursionLimit => "recursion limit exceeded"

inductive Doc where
  | null
  | bool (b : Bool)
  | number (strict : Except SyntaxError Json.Number)
  | text (strict : Except SyntaxError String)
  /-- Items and the fault after them, if the list does not end as it should: for the strict reader and for
  the one that skims. -/
  | array (items : List Doc) (fault : Option (SyntaxError × SyntaxError))
  /-- Members, and the fault after them. The first key of an object may be no text; then it is kept. -/
  | object (members : List (Except SyntaxError String × Doc)) (fault : Option (SyntaxError × SyntaxError))
      (oddKey : Option Doc)
  /-- The input ended where a value should stand. -/
  | missing
  /-- A text in quotes that cannot be followed to its end. -/
  | brokenText (strict skimmed : SyntaxError)
  /-- Anything else that cannot be followed. -/
  | broken (strict skimmed : SyntaxError)

namespace Doc

instance : Inhabited Doc := ⟨.null⟩

mutual
def ofJson : Json → Doc
  | .null => .null
  | .bool b => .bool b
  | .num n => .number (.ok n)
  | .str s => .text (.ok s)
  | .arr items => .array (ofItems items) none
  | .obj fields => .object (ofFields fields) none none
def ofItems : List Json → List Doc
  | [] => []
  | x :: xs => ofJson x :: ofItems xs
def ofFields : List (String × Json) → List (Except SyntaxError String × Doc)
  | [] => []
  | (k, x) :: xs => (.ok k, ofJson x) :: ofFields xs
end

mutual
/-- The fault that skimming over the tree meets. -/
def skim : Doc → Except SyntaxError Unit
  | .array items fault => do
    skimItems items
    match fault with
    | none => pure ()
    | some (_, e) => throw e
  | .object members fault _ => do
    skimMembers members
    match fault with
    | none => pure ()
    | some (_, e) => throw e
  | .missing => throw .eofValue
  | .brokenText _ e => throw e
  | .broken _ e => throw e
  | _ => pure ()
def skimItems : List Doc → Except SyntaxError Unit
  | [] => pure ()
  | x :: xs => do skim x; skimItems xs
def skimMembers : List (Except SyntaxError String × Doc) → Except SyntaxError Unit
  | [] => pure ()
  | (_, x) :: xs => do skim x; skimMembers xs
end

mutual
/-- The free value of a tree for a reader that may open `depth - 1` containers more. The last of two values
under one key stays. -/
def toJson (depth : Nat) : Doc → Except SyntaxError Json
  | .null => pure .null
  | .bool b => pure (.bool b)
  | .number r => do return .num (← r)
  | .text r => do return .str (← r)
  | .array items fault =>
    if depth ≤ 1 then throw .recursionLimit
    else do
      let xs ← toItems (depth - 1) items
      match fault with
      | none => return .arr xs
      | some (e, _) => throw e
  | .object members fault _ =>
    if depth ≤ 1 then throw .recursionLimit
    else do
      let fields ← toFields (depth - 1) [] members
      match fault with
      | none => return .obj fields
      | some (e, _) => throw e
  | .missing => throw .eofValue
  | .brokenText e _ => throw e
  | .broken e _ => throw e
def toItems (depth : Nat) : List Doc → Except SyntaxError (List Json)
  | [] => pure []
  | x :: xs => do
    let j ← toJson depth x
    return j :: (← toItems depth xs)
def toFields (depth : Nat) (fields : List (String × Json)) :
    List (Except SyntaxError String × Doc) → Except SyntaxError (List (String × Json))
  | [] => pure fields
  | (k, x) :: xs => do
    let key ← k
    let j ← toJson depth x
    toFields depth (Keyed.putAscending key j fields) xs
end

end Doc

end Pipeworks.Json
