/-!
Bytes as characters. A byte that belongs to no well-formed UTF-8 sequence is kept as a stray, so that a reader
can tell where it stood.
-/
namespace Pipeworks.Text

/-- A character, or `none` for a stray byte. -/
abbrev Symbol := Option Char

def symbols (s : String) : List Symbol := s.toList.map some

/-- The character that continuation bytes complete, if the sequence is well formed: shortest, no surrogate,
within range. -/
def sequence? (lead : Nat) (least : Nat) (tail : List UInt8) : Option Char :=
  if tail.all fun b => b.toNat / 64 == 2 then
    let n := tail.foldl (fun acc b => acc * 64 + b.toNat % 64) lead
    if least ≤ n ∧ (n < 0xD800 ∨ (0xDFFF < n ∧ n < 0x110000)) then some (Char.ofNat n) else none
  else none

/-- The first character of a list of bytes and how many bytes it takes after the first. -/
def firstChar? (b : UInt8) (rest : List UInt8) : Option (Char × Nat) :=
  let n := b.toNat
  if n < 0x80 then some (Char.ofNat n, 0)
  else if 0xC0 ≤ n ∧ n < 0xE0 ∧ 1 ≤ rest.length then
    (sequence? (n % 32) 0x80 (rest.take 1)).map (·, 1)
  else if 0xE0 ≤ n ∧ n < 0xF0 ∧ 2 ≤ rest.length then
    (sequence? (n % 16) 0x800 (rest.take 2)).map (·, 2)
  else if 0xF0 ≤ n ∧ n < 0xF8 ∧ 3 ≤ rest.length then
    (sequence? (n % 8) 0x10000 (rest.take 3)).map (·, 3)
  else none

/-- Reads bytes one character or stray at a time. -/
def scanBytes : List UInt8 → List Symbol
  | [] => []
  | b :: rest =>
    match firstChar? b rest with
    | some (c, n) => some c :: scanBytes (rest.drop n)
    | none => none :: scanBytes rest
termination_by bytes => bytes.length
decreasing_by all_goals simp +arith

/-- The symbols of bytes: those of the text that the bytes encode, if they encode one. -/
def symbolsOfBytes (bytes : ByteArray) : List Symbol :=
  match String.fromUTF8? bytes with
  | some s => symbols s
  | none => scanBytes bytes.toList

def Symbol.size : Symbol → Nat
  | some c => c.utf8Size
  | none => 1

end Pipeworks.Text
