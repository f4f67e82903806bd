import Pipeworks.Decimal.Scale
import Pipeworks.Script.Value
/-!
The words of a script.
-/
namespace Pipeworks.Script

inductive Token where
  | int (i : Int)
  | float (x : Float)
  | text (s : String)
  | char (c : Char)
  | name (s : String)
  | keyword (s : String)
  /-- A word or sign that has no meaning yet, and must not be used. -/
  | reserved (s : String)
  | sign (s : String)
  /-- Parts of a text with expressions: its ends, plain text, and the ends of an expression. -/
  | templateStart
  | templateText (s : String)
  | holeStart
  | holeEnd
  | templateEnd
deriving BEq, Inhabited

inductive ParseError where
  | badCharacter (c : Char)
  | unterminated
  | badNumber
  | badEscape
  | unexpected
  | unexpectedEnd
  | reservedWord (s : String)
  | tooDeep
  | duplicateFunction (name : String)
  | duplicateField (name : String)
  | duplicateParameter (name : String)
  | constant (name : String)
  | badTarget
  | misplacedFunction
  | outsideLoop

namespace Token

def keywords : List String :=
  ["true", "false", "let", "const", "if", "else", "while", "loop", "for", "in", "break", "continue",
    "return", "throw", "fn", "private", "import", "as"]

def reservedWords : List String :=
  ["do", "until", "switch", "export", "try", "catch", "this", "global", "eval", "Fn", "call", "curry",
    "is_shared", "is_def_var", "is_def_fn", "var", "static", "shared", "is", "goto", "exit", "match",
    "case", "default", "void", "null", "nil", "public", "protected", "new", "use", "with", "module",
    "package", "super", "thread", "spawn", "go", "await", "async", "sync", "yield"]

/-- Signs, longer ones first. -/
def signs : List String :=
  ["..=", "**=", "===", "!==", "<<=", ">>=", "->", "=>", "::", "..", "**", "+=", "-=", "*=", "/=", "%=",
    "==", "!=", "<=", ">=", "&&", "||", "??", "?.", "?[", "<-", ":=", "<<", ">>", "++", "--",
    "#\x7b", "+", "-", "*", "/", "%", "=", "<", ">", "!", "(", ")", "[", "]", "\x7b", "\x7d",
    ",", ";", ":", ".", "&", "|", "^", "~", "#", "?", "@", "$"]

def reservedSigns : List String :=
  ["===", "!==", "->", "=>", "::", "<<=", ">>=", "??", "?.", "?[", "<-", ":=", "<<", ">>", "++", "--",
    "&", "|", "^", "~", "#", "?", "@", "$"]

def ofWord (s : String) : Token :=
  if keywords.contains s then .keyword s
  else if reservedWords.contains s then .reserved s
  else .name s

end Token

namespace Lexer

def isNameStart (c : Char) : Bool := c.isAlpha || c == '_'
def isNamePart (c : Char) : Bool := c.isAlphanum || c == '_'
def isGap (c : Char) : Bool := c.isWhitespace

/-- Drops a block comment past its start; such comments nest. -/
def skipBlock : Nat → List Char → List Char
  | _, [] => []
  | depth, '/' :: '*' :: cs => skipBlock (depth + 1) cs
  | depth, '*' :: '/' :: cs => if depth = 0 then cs else skipBlock (depth - 1) cs
  | depth, _ :: cs => skipBlock depth cs

def digitVal (c : Char) : Nat :=
  if c.isDigit then c.toNat - '0'.toNat
  else if 'a' ≤ c ∧ c ≤ 'z' then c.toNat - 'a'.toNat + 10
  else if 'A' ≤ c ∧ c ≤ 'Z' then c.toNat - 'A'.toNat + 10
  else 99

def valueOf (base : Nat) (cs : List Char) : Nat :=
  cs.foldl (fun acc c => acc * base + digitVal c) 0

def based (base : Nat) (cs : List Char) : Except ParseError (Token × List Char) :=
  let isDigit := fun c => decide (digitVal c < base)
  let word := cs.takeWhile fun c => isDigit c || c == '_'
  let rest := cs.drop word.length
  let digits := word.filter (· ≠ '_')
  let n := valueOf base digits
  if digits.isEmpty || (rest.head?.any isNamePart) || n ≥ 18446744073709551616 then .error .badNumber
  -- Sixty-four bits of a based number are a signed integer.
  else .ok (.int (Int.bmod n 18446744073709551616), rest)

/-- A decimal number: an integer unless it has a fraction or an exponent or is too large for one. -/
def decimal (cs : List Char) : Except ParseError (Token × List Char) :=
  let span := fun (cs : List Char) => cs.takeWhile fun c => c.isDigit || c == '_'
  let clean := fun (cs : List Char) => cs.filter (· ≠ '_')
  let whole := span cs
  let rest := cs.drop whole.length
  let (fraction, rest) := match rest with
    | '.' :: c :: r =>
      if c.isDigit then (some (span (c :: r)), (c :: r).drop (span (c :: r)).length)
      else if c = '.' ∨ isNameStart c then (none, '.' :: c :: r)
      else (some [], c :: r)
    | ['.'] => (some [], [])
    | r => (none, r)
  let (exponent, rest) := match rest with
    | e :: r =>
      if e = 'e' ∨ e = 'E' then
        let (negative, r') := match r with
          | '-' :: q => (true, q)
          | '+' :: q => (false, q)
          | q => (false, q)
        let digits := span r'
        if digits.isEmpty then (none, rest)
        else
          let n : Int := valueOf 10 (clean digits)
          (some (if negative then -n else n), r'.drop digits.length)
      else (none, rest)
    | [] => (none, rest)
  if rest.head?.any isNamePart then .error .badNumber
  else
    let digits := clean whole ++ clean (fraction.getD [])
    let n := valueOf 10 (clean whole)
    match fraction, exponent with
    | none, none => .ok (if n ≤ 9223372036854775807 then .int n else .float (Decimal.nearest n 0), rest)
    | _, _ =>
      .ok (.float (Decimal.nearest (valueOf 10 digits)
        (exponent.getD 0 - ((clean (fraction.getD [])).length : Int))), rest)

def number : List Char → Except ParseError (Token × List Char)
  | '0' :: 'x' :: cs => based 16 cs
  | '0' :: 'X' :: cs => based 16 cs
  | '0' :: 'o' :: cs => based 8 cs
  | '0' :: 'O' :: cs => based 8 cs
  | '0' :: 'b' :: cs => based 2 cs
  | '0' :: 'B' :: cs => based 2 cs
  | cs => decimal cs

def hexChar (n : Nat) (cs : List Char) : Except ParseError (Char × Nat) :=
  let ds := cs.take n
  if ds.length = n ∧ ds.all (fun c => digitVal c < 16) then
    let v := valueOf 16 ds
    if v < 0xD800 ∨ (0xDFFF < v ∧ v < 0x110000) then .ok (Char.ofNat v, n + 1) else .error .badEscape
  else .error .badEscape

/-- The character of an escape past its backslash, and how many characters it takes. -/
def escape : List Char → Except ParseError (Char × Nat)
  | '\\' :: _ => .ok ('\\', 1)
  | 't' :: _ => .ok ('\t', 1)
  | 'n' :: _ => .ok ('\n', 1)
  | 'r' :: _ => .ok ('\r', 1)
  | '"' :: _ => .ok ('"', 1)
  | '\'' :: _ => .ok ('\'', 1)
  | 'x' :: cs => hexChar 2 cs
  | 'u' :: cs => hexChar 4 cs
  | 'U' :: cs => hexChar 8 cs
  | _ => .error .badEscape

/-- A text up to its closing quote; it may not go over the end of a line. -/
def quoted (acc : List Char) : List Char → Except ParseError (String × List Char)
  | [] => .error .unterminated
  | '"' :: cs => .ok (String.ofList acc.reverse, cs)
  | '\n' :: _ => .error .unterminated
  | '\\' :: cs => do
    let (c, n) ← escape cs
    quoted (c :: acc) (cs.drop n)
  | c :: cs => quoted (c :: acc) cs
termination_by cs => cs.length
decreasing_by all_goals simp +arith

def character : List Char → Except ParseError (Char × List Char)
  | '\\' :: cs => do
    let (c, n) ← escape cs
    match cs.drop n with
    | '\'' :: rest => return (c, rest)
    | _ => throw .badEscape
  | c :: '\'' :: rest => if c = '\'' ∨ c = '\n' then .error .badEscape else .ok (c, rest)
  | _ => .error .unterminated

/-- The plain text of a template up to a hole (`true`) or to its end; a doubled mark stands for one. -/
def templateText (acc : List Char) : List Char → Except ParseError (String × Bool × List Char)
  | [] => .error .unterminated
  | '\x60' :: '\x60' :: cs => templateText ('\x60' :: acc) cs
  | '\x60' :: cs => .ok (String.ofList acc.reverse, false, cs)
  | '$' :: '\x7b' :: cs => .ok (String.ofList acc.reverse, true, cs)
  | c :: cs => templateText (c :: acc) cs

/-- Reads the words of a script; `holes` holds, for each template that is open, how many braces are open in
its hole. -/
def run : Nat → List Nat → List Char → Except ParseError (List Token)
  | 0, _, _ => .error .unexpectedEnd
  | _ + 1, [], [] => .ok []
  | _ + 1, _ :: _, [] => .error .unterminated
  | fuel + 1, holes, c :: cs =>
    if isGap c then run fuel holes cs
    else if c = '/' ∧ cs.head? = some '/' then run fuel holes (cs.dropWhile (· ≠ '\n'))
    else if c = '/' ∧ cs.head? = some '*' then run fuel holes (skipBlock 0 cs.tail)
    else if c.isDigit then do
      let (t, rest) ← number (c :: cs)
      return t :: (← run fuel holes rest)
    else if isNameStart c then
      let word := (c :: cs).takeWhile isNamePart
      do return Token.ofWord (String.ofList word) :: (← run fuel holes ((c :: cs).drop word.length))
    else if c = '"' then do
      let (s, rest) ← quoted [] cs
      return .text s :: (← run fuel holes rest)
    else if c = '\'' then do
      let (x, rest) ← character cs
      return .char x :: (← run fuel holes rest)
    else if c = '\x60' then do
      -- A line break right after the mark does not belong to the text.
      let cs := match cs with
        | '\r' :: '\n' :: r => r
        | '\n' :: r => r
        | r => r
      return .templateStart :: (← template fuel holes cs)
    else if c = '\x7d' ∧ holes.head? = some 0 then do
      return .holeEnd :: (← template fuel holes.tail cs)
    else
      match Token.signs.find? fun s => s.toList.isPrefixOf (c :: cs) with
      | none => .error (.badCharacter c)
      | some s =>
        let holes := match holes with
          | n :: rest =>
            if s = "\x7b" ∨ s = "#\x7b" then (n + 1) :: rest
            else if s = "\x7d" then (n - 1) :: rest
            else holes
          | [] => []
        let token := if Token.reservedSigns.contains s then Token.reserved s else Token.sign s
        do return token :: (← run fuel holes ((c :: cs).drop s.length))
where
  /-- Within a template. -/
  template : Nat → List Nat → List Char → Except ParseError (List Token)
  | 0, _, _ => .error .unexpectedEnd
  | fuel + 1, holes, cs => do
    let (s, hole, rest) ← templateText [] cs
    if hole then
      return .templateText s :: .holeStart :: (← run fuel (0 :: holes) rest)
    else
      return .templateText s :: .templateEnd :: (← run fuel holes rest)

def tokens (source : String) : Except ParseError (List Token) :=
  let cs := source.toList
  run (2 * cs.length + 2) [] cs

end Lexer

end Pipeworks.Script
