import Pipeworks.Toml.Basic
import Pipeworks.Decimal.Reader
/-!
Reading TOML documents. A reader takes characters from the front and gives the rest; `none` is a fault, of which
no more is told. The names that were given a meaning are kept to see that none is given a second one.
-/
namespace Pipeworks.Toml

abbrev Reader (α : Type) := List Char → Option (α × List Char)

def isGap (c : Char) : Bool := c == ' ' || c == '\t'

def skipGaps (cs : List Char) : List Char := cs.dropWhile isGap

/-- Characters that may not stand in a comment or a text. -/
def isControl (c : Char) : Bool := (c.toNat < 32 && c != '\t') || c.toNat == 127

/-- The end of a line, or of the document. -/
def endOfLine : List Char → Option (List Char)
  | [] => some []
  | '\n' :: cs => some cs
  | '\r' :: '\n' :: cs => some cs
  | _ => none

def skipComment (cs : List Char) : Option (List Char) :=
  match skipGaps cs with
  | '#' :: rest =>
    let line := rest.takeWhile fun c => c != '\n' && c != '\r'
    if line.any isControl then none else some (rest.drop line.length)
  | rest => some rest

/-- Passes over gaps, comments and ends of lines; the first argument bounds the number of lines. -/
def skipLines : Nat → List Char → Option (List Char)
  | 0, cs => some cs
  | n + 1, cs => do
    let cs ← skipComment cs
    match cs with
    | '\n' :: rest => skipLines n rest
    | '\r' :: '\n' :: rest => skipLines n rest
    | cs => some cs

/-! ### Texts -/

/-- The value of hexadecimal digits of a given number. -/
def hexadecimal (n : Nat) (cs : List Char) : Option (Nat × List Char) := do
  let ds := cs.take n
  if ds.length < n then none
  else
    let value ← ds.foldlM (fun acc c => do
      let d ← if c.isDigit then some (c.toNat - '0'.toNat)
        else if 'a' ≤ c ∧ c ≤ 'f' then some (c.toNat - 'a'.toNat + 10)
        else if 'A' ≤ c ∧ c ≤ 'F' then some (c.toNat - 'A'.toNat + 10)
        else none
      return acc * 16 + d) 0
    return (value, cs.drop n)

/-- The character of a number, unless it is a surrogate or out of range. -/
def scalar? (n : Nat) : Option Char :=
  if n < 0xD800 ∨ (0xDFFF < n ∧ n < 0x110000) then some (Char.ofNat n) else none

def escape : Reader Char
  | 'b' :: cs => some ('\x08', cs)
  | 't' :: cs => some ('\t', cs)
  | 'n' :: cs => some ('\n', cs)
  | 'f' :: cs => some ('\x0c', cs)
  | 'r' :: cs => some ('\r', cs)
  | '"' :: cs => some ('"', cs)
  | '\\' :: cs => some ('\\', cs)
  | 'u' :: cs => do
    let (n, rest) ← hexadecimal 4 cs
    return (← scalar? n, rest)
  | 'U' :: cs => do
    let (n, rest) ← hexadecimal 8 cs
    return (← scalar? n, rest)
  | _ => none

/-- A text between double quotes, the first of which was read. -/
def basic : Nat → List Char → Reader String
  | 0, _, _ => none
  | n + 1, acc, cs =>
    match cs with
    | '"' :: rest => some (String.ofList acc.reverse, rest)
    | '\\' :: rest => do
      let (c, rest) ← escape rest
      basic n (c :: acc) rest
    | c :: rest => if isControl c then none else basic n (c :: acc) rest
    | [] => none

/-- A text between single quotes, the first of which was read. -/
def literal (cs : List Char) : Option (String × List Char) :=
  let content := cs.takeWhile (· ≠ '\'')
  match cs.drop content.length with
  | '\'' :: rest => if content.any isControl then none else some (String.ofList content, rest)
  | _ => none

/-! ### Numbers -/

/-- Digits with single underscores between them, and the characters without the underscores. -/
def grouped (isDigit : Char → Bool) : List Char → Option (List Char)
  | [] => none
  | [c] => if isDigit c then some [c] else none
  | c :: '_' :: cs => if isDigit c then (grouped isDigit cs).map (c :: ·) else none
  | c :: cs => if isDigit c then (grouped isDigit cs).map (c :: ·) else none

/-- A value of 64 bits with sign. -/
def bounded (i : Int) : Option Json :=
  if -9223372036854775808 ≤ i ∧ i ≤ 9223372036854775807 then some (.int i) else none

def based (base : Nat) (isDigit : Char → Bool) (cs : List Char) : Option Json := do
  let ds ← grouped isDigit cs
  let value := ds.foldl (fun n c =>
    n * base + (if c.isDigit then c.toNat - '0'.toNat else c.toLower.toNat - 'a'.toNat + 10)) 0
  bounded value

/-- The whole part of a number: no zero stands before other digits. -/
def whole (cs : List Char) : Option (List Char) := do
  let ds ← grouped Char.isDigit cs
  match ds with
  | '0' :: _ :: _ => none
  | ds => some ds

def fractional (negative : Bool) (cs : List Char) : Option Json := do
  let head := cs.takeWhile fun c => c.isDigit || c == '_'
  let digits ← whole head
  let rest := cs.drop head.length
  let (fraction, rest) ← match rest with
    | '.' :: rest => do
      let part := rest.takeWhile fun c => c.isDigit || c == '_'
      let ds ← grouped Char.isDigit part
      some ('.' :: ds, rest.drop part.length)
    | rest => some ([], rest)
  let exponent ← match rest with
    | [] => some []
    | c :: rest =>
      if c = 'e' ∨ c = 'E' then
        let (sign, ds) := match rest with
          | '+' :: ds => (['+'], ds)
          | '-' :: ds => (['-'], ds)
          | ds => ([], ds)
        (grouped Char.isDigit ds).map fun ds => 'e' :: sign ++ ds
      else none
  let x ← Decimal.read? (String.ofList (digits ++ fraction ++ exponent))
  return .num (.float (if negative then -x else x))

/-- A value that is one word: a truth value or a number. -/
def word (cs : List Char) : Option Json :=
  match String.ofList cs with
  | "true" => some (.bool true)
  | "false" => some (.bool false)
  | _ =>
    match cs with
    | '0' :: 'x' :: ds => based 16 (fun c => c.isDigit || ('a' ≤ c && c ≤ 'f') || ('A' ≤ c && c ≤ 'F')) ds
    | '0' :: 'o' :: ds => based 8 (fun c => '0' ≤ c && c ≤ '7') ds
    | '0' :: 'b' :: ds => based 2 (fun c => c == '0' || c == '1') ds
    | cs =>
      let (negative, ds) := match cs with
        | '-' :: ds => (true, ds)
        | '+' :: ds => (false, ds)
        | ds => (false, ds)
      if ds = ['i', 'n', 'f'] then some (.num (.float (if negative then -(1.0 / 0.0) else 1.0 / 0.0)))
      else if ds = ['n', 'a', 'n'] then some (.num (.float (0.0 / 0.0)))
      else if ds.all fun c => c.isDigit || c == '_' then do
        let n := Decimal.valueOf (← whole ds)
        bounded (if negative then -(n : Int) else (n : Int))
      else fractional negative ds

/-! ### Keys and values -/

def isBare (c : Char) : Bool := c.isAlphanum || c == '_' || c == '-'

def keyPart (cs : List Char) : Option (String × List Char) :=
  match cs with
  | '"' :: rest => basic (rest.length + 1) [] rest
  | '\'' :: rest => literal rest
  | cs =>
    let name := cs.takeWhile isBare
    if name.isEmpty then none else some (String.ofList name, cs.drop name.length)

/-- A key: parts with points between them. -/
def key : Nat → Reader (List String)
  | 0, _ => none
  | n + 1, cs => do
    let (part, rest) ← keyPart (skipGaps cs)
    match skipGaps rest with
    | '.' :: more => do
      let (parts, rest) ← key n more
      return (part :: parts, rest)
    | rest => return ([part], rest)

/-- Puts a value under a path of keys of an inline table; there may not be one already. -/
def place : List String → Json → List (String × Json) → Option (List (String × Json))
  | [], _, _ => none
  | [k], v, fields => if fields.any (·.1 == k) then none else some (fields ++ [(k, v)])
  | k :: ks, v, fields =>
    match Json.lookup? k fields with
    | none => do
      let inner ← place ks v []
      return fields ++ [(k, .obj inner)]
    | some (.obj old) => do
      let inner ← place ks v old
      return fields.map fun (k', x) => if k' == k then (k', .obj inner) else (k', x)
    | some _ => none

mutual

/-- A value. The first argument bounds the nesting and the number of elements. -/
def value : Nat → Reader Json
  | 0, _ => none
  | n + 1, cs =>
    match cs with
    | '"' :: rest => (basic (rest.length + 1) [] rest).map fun (s, rest) => (.str s, rest)
    | '\'' :: rest => (literal rest).map fun (s, rest) => (.str s, rest)
    | '[' :: rest => elements n [] rest
    | '\x7b' :: rest =>
      match skipGaps rest with
      | '\x7d' :: rest => some (.obj [], rest)
      | rest => members n [] rest
    | cs =>
      let token := cs.takeWhile fun c => isBare c || c == '+' || c == '.' || c == ':'
      (word token).map fun v => (v, cs.drop token.length)

/-- The elements of an array up to its end. -/
def elements : Nat → List Json → Reader Json
  | 0, _, _ => none
  | n + 1, acc, cs => do
    let cs ← skipLines cs.length cs
    match cs with
    | ']' :: rest => return (.arr acc.reverse, rest)
    | cs => do
      let (v, rest) ← value n cs
      let rest ← skipLines rest.length rest
      match rest with
      | ',' :: rest => elements n (v :: acc) rest
      | ']' :: rest => return (.arr (v :: acc).reverse, rest)
      | _ => none

/-- The members of an inline table up to its end. -/
def members : Nat → List (String × Json) → Reader Json
  | 0, _, _ => none
  | n + 1, acc, cs => do
    let (path, rest) ← key cs.length cs
    match rest with
    | '=' :: rest => do
      let (v, rest) ← value n (skipGaps rest)
      let acc ← place path v acc
      match skipGaps rest with
      | ',' :: rest => members n acc rest
      | '\x7d' :: rest => return (.obj acc, rest)
      | _ => none
    | _ => none

end

/-! ### Documents -/

structure State where
  /-- The table that keys are put into. -/
  table : List String := []
  /-- The names that have a value. -/
  values : List (List String) := []
  /-- The names of tables with a heading of their own. -/
  headings : List (List String) := []
  /-- The names of tables that longer keys brought about. -/
  implied : List (List String) := []
  /-- The names of lists of tables. -/
  lists : List (List String) := []
  entries : List Entry := []

namespace State

/-- The proper beginnings of a path, the empty one excepted. -/
def beginnings (path : List String) : List (List String) :=
  (List.range path.length).filterMap fun n => if n = 0 then none else some (path.take n)

/-- Adds an entry at the top of the document, unless its key is there. -/
def addEntry (s : State) (e : Entry) : State :=
  if s.entries.any (·.key == e.key) then s else { s with entries := s.entries ++ [e] }

def assign (s : State) (path : List String) (v : Json) (span : Span) : Option State :=
  let full := s.table ++ path
  let through := (beginnings full).filter (s.table.length < ·.length)
  let known := s.values ++ s.headings ++ s.implied ++ s.lists
  if full ∈ known then none
  else if (beginnings full).any (· ∈ s.values) then none
  else if through.any fun p => p ∈ s.headings || p ∈ s.lists then none
  else
    let s := { s with values := s.values ++ [full], implied := s.implied ++ through }
    match full with
    | [k] => some (s.addEntry ⟨k, v, span⟩)
    | k :: _ => some (s.addEntry ⟨k, .obj [], span⟩)
    | [] => none

def begin (s : State) (path : List String) (span : Span) : Option State :=
  if path ∈ s.headings ∨ path ∈ s.implied ∨ path ∈ s.lists then none
  else if (path :: beginnings path).any (· ∈ s.values) then none
  else
    let s := { s with headings := s.headings ++ [path], table := path }
    match path with
    | k :: _ => some (s.addEntry ⟨k, .obj [], span⟩)
    | [] => none

def beginItem (s : State) (path : List String) (span : Span) : Option State :=
  if path ∈ s.headings ∨ path ∈ s.implied then none
  else if (path :: beginnings path).any (· ∈ s.values) then none
  else
    let inside := fun (p : List String) => path.isPrefixOf p && p != path
    let s := { s with
      lists := if path ∈ s.lists then s.lists else s.lists ++ [path]
      values := s.values.filter (!inside ·)
      headings := s.headings.filter (!inside ·)
      implied := s.implied.filter (!inside ·)
      table := path }
    match path with
    | [k] => some (s.addEntry ⟨k, .arr [], span⟩)
    | k :: _ => some (s.addEntry ⟨k, .obj [], span⟩)
    | [] => none

end State

/-- Reads one heading or one key with its value; `size` is the length of the whole text. -/
def item (size : Nat) (s : State) (cs : List Char) : Option (State × List Char) :=
  let offset := fun (rest : List Char) => size - rest.length
  match cs with
  | '[' :: '[' :: rest => do
    let (path, rest) ← key rest.length rest
    match rest with
    | ']' :: ']' :: rest => do
      let s ← s.beginItem path ⟨offset cs, offset rest⟩
      return (s, rest)
    | _ => none
  | '[' :: rest => do
    let (path, rest) ← key rest.length rest
    match rest with
    | ']' :: rest => do
      let s ← s.begin path ⟨offset cs, offset rest⟩
      return (s, rest)
    | _ => none
  | cs => do
    let (path, rest) ← key cs.length cs
    match rest with
    | '=' :: rest => do
      let rest := skipGaps rest
      let (v, after) ← value (rest.length + 1) rest
      let s ← s.assign path v ⟨offset rest, offset after⟩
      return (s, after)
    | _ => none

/-- Reads lines to the end of the text; the first argument bounds their number. -/
def items (size : Nat) : Nat → State → List Char → Option State
  | 0, _, _ => none
  | n + 1, s, cs => do
    let cs ← skipLines (cs.length + 1) cs
    match cs with
    | [] => return s
    | cs => do
      let (s, rest) ← item size s cs
      let rest ← endOfLine (← skipComment rest)
      items size n s rest

/-- Reads a document, with a byte order mark in front or without one. -/
def Document.parse (text : String) : Except Fault Document :=
  let cs := text.toList
  let marked := cs.head? == some '\uFEFF'
  match items cs.length (cs.length + 1) {} (if marked then cs.drop 1 else cs) with
  | some s => .ok ⟨text, s.entries⟩
  | none => .error .malformed

end Pipeworks.Toml
