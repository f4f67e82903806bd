import Pipeworks.Json.Doc
import Pipeworks.Text.Utf8
/-!
Texts in quotes. Both readers start after the opening quote.
-/
namespace Pipeworks.Json.Quoted

open Pipeworks.Text

def hexVal? : Symbol → Option Nat
  | some c =>
    if c.isDigit then some (c.toNat - '0'.toNat)
    else if 'a' ≤ c ∧ c ≤ 'f' then some (c.toNat - 'a'.toNat + 10)
    else if 'A' ≤ c ∧ c ≤ 'F' then some (c.toNat - 'A'.toNat + 10)
    else none
  | none => none

/-- Four hexadecimal digits. Fewer than four bytes before the end of the input are its end. -/
def hex4 (s : List Symbol) : Except SyntaxError Nat :=
  match (s.take 4).mapM hexVal? with
  | some [a, b, c, d] => .ok (((a * 16 + b) * 16 + c) * 16 + d)
  | _ => if (s.take 4).foldl (fun n b => n + b.size) 0 < 4 then .error .eofString else .error .invalidEscape

/-- The character that an escape past its backslash stands for, and how many symbols it takes. A character
beyond sixteen bits is a pair of surrogates. -/
def unescape : List Symbol → Except SyntaxError (Char × Nat)
  | [] => .error .eofString
  | some '"' :: _ => .ok ('"', 1)
  | some '\\' :: _ => .ok ('\\', 1)
  | some '/' :: _ => .ok ('/', 1)
  | some 'b' :: _ => .ok ('\x08', 1)
  | some 'f' :: _ => .ok ('\x0c', 1)
  | some 'n' :: _ => .ok ('\n', 1)
  | some 'r' :: _ => .ok ('\r', 1)
  | some 't' :: _ => .ok ('\t', 1)
  | some 'u' :: s => do
    let high ← hex4 s
    if 0xDC00 ≤ high ∧ high ≤ 0xDFFF then throw .loneLeadingSurrogate
    if high < 0xD800 ∨ 0xDBFF < high then return (Char.ofNat high, 5)
    match s.drop 4 with
    | [] => throw .eofString
    | some '\\' :: [] => throw .eofString
    | some '\\' :: some 'u' :: s =>
      let low ← hex4 s
      if low < 0xDC00 ∨ 0xDFFF < low then throw .loneLeadingSurrogate
      return (Char.ofNat ((high - 0xD800) * 1024 + (low - 0xDC00) + 0x10000), 11)
    | _ => throw .unexpectedEndOfHexEscape
  | _ => .error .invalidEscape

/-- Reads up to the closing quote. A stray byte is only noticed there. -/
def read (acc : List Char) (stray : Bool) : List Symbol → Except SyntaxError (String × List Symbol)
  | [] => .error .eofString
  | some '"' :: rest =>
    if stray then .error .invalidCodePoint else .ok (String.ofList acc.reverse, rest)
  | some '\\' :: rest => do
    let (c, n) ← unescape rest
    read (c :: acc) stray (rest.drop n)
  | some c :: rest => if c.toNat < 32 then .error .controlCharacter else read (c :: acc) stray rest
  | none :: rest => read acc true rest
termination_by s => s.length
decreasing_by all_goals simp +arith

/-- Passes over an escape, and says how many symbols it takes: surrogates need no partner. -/
def skimEscape : List Symbol → Except SyntaxError Nat
  | [] => .error .eofString
  | some 'u' :: s => do
    let _ ← hex4 s
    return 5
  | some c :: _ =>
    if ['"', '\\', '/', 'b', 'f', 'n', 'r', 't'].contains c then .ok 1 else .error .invalidEscape
  | none :: _ => .error .invalidEscape

/-- Passes over a text up to its closing quote, and gives the rest. -/
def skim : List Symbol → Except SyntaxError (List Symbol)
  | [] => .error .eofString
  | some '"' :: rest => .ok rest
  | some '\\' :: rest => do
    let n ← skimEscape rest
    skim (rest.drop n)
  | some c :: rest => if c.toNat < 32 then .error .controlCharacter else skim rest
  | none :: rest => skim rest
termination_by s => s.length
decreasing_by all_goals simp +arith

end Pipeworks.Json.Quoted
