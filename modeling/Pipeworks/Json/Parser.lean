import Pipeworks.Json.Numeral
import Pipeworks.Json.Quoted
/-!
The tree of a JSON text. Main definitions: `Doc.parse` for the tree and what follows it, `Document` for a text
that must hold one value and nothing else.
-/
namespace Pipeworks.Json

open Pipeworks.Text

def isGap : Symbol → Bool
  | some c => c == ' ' || c == '\n' || c == '\t' || c == '\r'
  | none => false

def skipGap (s : List Symbol) : List Symbol := s.dropWhile isGap

namespace Doc

/-- A tree, and the rest of the input unless the tree ends in a fault that stops both readers. -/
abbrev Parsed := Doc × Option (List Symbol)

def stop (strict skimmed : SyntaxError) : Parsed := (.broken strict skimmed, none)

def word (value : Doc) : List Char → List Symbol → Parsed
  | [], s => (value, some s)
  | _, [] => stop .eofValue .eofValue
  | c :: cs, x :: s => if x = some c then word value cs s else stop .expectedIdent .expectedIdent

def numeral (s : List Symbol) : Parsed :=
  let strict := Numeral.read s
  match Numeral.skim s, strict with
  | .ok rest, _ => (.number strict, some rest)
  | .error e, .error e' => stop e' e
  | .error e, .ok _ => stop e e

/-- The strict value of a text past its opening quote, and the rest; or the faults where both stop. -/
def quoted (s : List Symbol) : Except (SyntaxError × SyntaxError) (Except SyntaxError String × List Symbol) :=
  let strict := (Quoted.read [] false s).map Prod.fst
  match Quoted.skim s, strict with
  | .ok rest, _ => .ok (strict, rest)
  | .error e, .error e' => .error (e', e)
  | .error e, .ok _ => .error (e, e)

mutual
/-- Reads the value that the input begins with; the first argument bounds the nesting, and one more than the
length of the input is enough. -/
def parse : Nat → List Symbol → Parsed
  | 0, _ => stop .eofValue .eofValue
  | fuel + 1, s =>
    match skipGap s with
    | [] => (.missing, none)
    | some 'n' :: r => word .null "ull".toList r
    | some 't' :: r => word (.bool true) "rue".toList r
    | some 'f' :: r => word (.bool false) "alse".toList r
    | some '"' :: r =>
      match quoted r with
      | .ok (strict, rest) => (.text strict, some rest)
      | .error (e, e') => (.brokenText e e', none)
    | some '[' :: r =>
      match items fuel true r with
      | (xs, .ok rest) => (.array xs none, some rest)
      | (xs, .error fault) => (.array xs (some fault), none)
    | some '{' :: r =>
      match members fuel true r with
      | (ms, .ok rest, _) => (.object ms none none, some rest)
      | (ms, .error fault, odd) => (.object ms (some fault) odd, none)
    | x :: r =>
      if x = some '-' ∨ (Numeral.digit? x).isSome then numeral (x :: r)
      else stop .expectedValue .expectedValue

def items : Nat → Bool → List Symbol →
    List Doc × Except (SyntaxError × SyntaxError) (List Symbol)
  | 0, _, _ => ([], .error (.eofList, .eofList))
  | fuel + 1, first, s =>
    match skipGap s with
    | [] => ([], .error (.eofList, .eofList))
    | some ']' :: rest => ([], .ok rest)
    | x :: r =>
      if first then item fuel (x :: r)
      else if x = some ',' then
        match skipGap r with
        | [] => ([], .error (.eofValue, .eofValue))
        | some ']' :: _ => ([], .error (.trailingComma, .expectedValue))
        | r => item fuel r
      else ([], .error (.expectedListCommaOrEnd, .expectedListCommaOrEnd))

def item : Nat → List Symbol → List Doc × Except (SyntaxError × SyntaxError) (List Symbol)
  | 0, _ => ([], .error (.eofList, .eofList))
  | fuel + 1, s =>
    match parse fuel s with
    | (x, some rest) =>
      let (xs, e) := items fuel false rest
      (x :: xs, e)
    | (x, none) => ([x], .error (.eofList, .eofList))

def members : Nat → Bool → List Symbol →
    List (Except SyntaxError String × Doc) × Except (SyntaxError × SyntaxError) (List Symbol) × Option Doc
  | 0, _, _ => ([], .error (.eofObject, .eofObject), none)
  | fuel + 1, first, s =>
    match skipGap s with
    | [] => ([], .error (.eofObject, .eofObject), none)
    | some '}' :: rest => ([], .ok rest, none)
    | x :: r =>
      if first then
        match x with
        | some '"' => member fuel r
        | x => ([], .error (.keyMustBeAString, .keyMustBeAString), some (parse fuel (x :: r)).1)
      else if x = some ',' then
        match skipGap r with
        | [] => ([], .error (.eofValue, .eofObject), none)
        | some '"' :: r => member fuel r
        | some '}' :: _ => ([], .error (.trailingComma, .keyMustBeAString), none)
        | _ => ([], .error (.keyMustBeAString, .keyMustBeAString), none)
      else ([], .error (.expectedObjectCommaOrEnd, .expectedObjectCommaOrEnd), none)

/-- Reads one member past the quote of its key, and those after it. -/
def member : Nat → List Symbol →
    List (Except SyntaxError String × Doc) × Except (SyntaxError × SyntaxError) (List Symbol) × Option Doc
  | 0, _ => ([], .error (.eofObject, .eofObject), none)
  | fuel + 1, s =>
    match quoted s with
    | .error fault => ([], .error fault, none)
    | .ok (key, rest) =>
      match skipGap rest with
      | [] => ([(key, .broken .eofObject .eofObject)], .error (.eofObject, .eofObject), none)
      | some ':' :: r =>
        match parse fuel r with
        | (x, some rest) =>
          let (ms, e, odd) := members fuel false rest
          ((key, x) :: ms, e, odd)
        | (x, none) => ([(key, x)], .error (.eofObject, .eofObject), none)
      | _ => ([(key, .broken .expectedColon .expectedColon)], .error (.eofObject, .eofObject), none)
end

end Doc

/-- A text that should hold one value: its tree, and whether something follows. -/
structure Document where
  root : Doc
  trailing : Bool

namespace Document

def ofSymbols (s : List Symbol) : Document :=
  match Doc.parse (3 * s.length + 3) s with
  | (root, some rest) => ⟨root, !(skipGap rest).isEmpty⟩
  | (root, none) => ⟨root, false⟩

def ofText (s : String) : Document := ofSymbols (symbols s)

def ofBytes (b : ByteArray) : Document := ofSymbols (symbolsOfBytes b)

/-- A value that is at hand, as if it had been read. -/
def ofJson (j : Json) : Document := ⟨Doc.ofJson j, false⟩

end Document

/-- A text nests at most 127 containers. -/
def nesting : Nat := 128

def Document.toJson (d : Document) : Except SyntaxError Json := do
  let j ← d.root.toJson nesting
  if d.trailing then throw .trailingCharacters
  return j

end Pipeworks.Json
