import Pipeworks.Json.Basic
/-!
The text of a JSON value, compact or indented. Characters beyond ASCII stand for themselves; only the quote,
the backslash and the control characters are escaped.
-/
namespace Pipeworks.Json

def hexDigit (n : Nat) : Char :=
  Nat.digitChar n

def escape (c : Char) : List Char :=
  if c = '"' then ['\\', '"']
  else if c = '\\' then ['\\', '\\']
  else if c = '\x08' then ['\\', 'b']
  else if c = '\x0c' then ['\\', 'f']
  else if c = '\n' then ['\\', 'n']
  else if c = '\r' then ['\\', 'r']
  else if c = '\t' then ['\\', 't']
  else if c.toNat < 32 then ['\\', 'u', '0', '0', hexDigit (c.toNat / 16), hexDigit (c.toNat % 16)]
  else [c]

def quoted (s : String) : List Char :=
  '"' :: (s.toList.flatMap escape ++ ['"'])

def Number.chars : Number → List Char
  | .int i => (toString i).toList
  | .float x => (Decimal.json.float x).toList

mutual
/-- The characters of the compact text. -/
def chars : Json → List Char
  | .null => "null".toList
  | .bool true => "true".toList
  | .bool false => "false".toList
  | .num n => n.chars
  | .str s => quoted s
  | .arr [] => ['[', ']']
  | .arr (x :: xs) => '[' :: (chars x ++ itemChars xs)
  | .obj [] => ['{', '}']
  | .obj ((k, v) :: rest) => '{' :: (quoted k ++ ':' :: (chars v ++ fieldChars rest))
/-- What follows the first item, up to the bracket. -/
def itemChars : List Json → List Char
  | [] => [']']
  | x :: xs => ',' :: (chars x ++ itemChars xs)
/-- What follows the first field, up to the brace. -/
def fieldChars : List (String × Json) → List Char
  | [] => ['}']
  | (k, v) :: rest => ',' :: (quoted k ++ ':' :: (chars v ++ fieldChars rest))
end

def compact (j : Json) : String := String.ofList j.chars

def newline (indent : Nat) : List Char :=
  '\n' :: List.replicate (2 * indent) ' '

mutual
/-- The characters of the text with one item to a line, two spaces for each level. -/
def prettyChars (indent : Nat) : Json → List Char
  | .arr (x :: xs) =>
    '[' :: (newline (indent + 1) ++ prettyChars (indent + 1) x ++ prettyItems indent xs)
  | .obj ((k, v) :: rest) =>
    '{' :: (newline (indent + 1) ++ quoted k ++ ':' :: ' ' ::
      (prettyChars (indent + 1) v ++ prettyFields indent rest))
  | j => j.chars
def prettyItems (indent : Nat) : List Json → List Char
  | [] => newline indent ++ [']']
  | x :: xs => ',' :: (newline (indent + 1) ++ prettyChars (indent + 1) x ++ prettyItems indent xs)
def prettyFields (indent : Nat) : List (String × Json) → List Char
  | [] => newline indent ++ ['}']
  | (k, v) :: rest =>
    ',' :: (newline (indent + 1) ++ quoted k ++ ':' :: ' ' ::
      (prettyChars (indent + 1) v ++ prettyFields indent rest))
end

def pretty (j : Json) : String := String.ofList (j.prettyChars 0)

end Pipeworks.Json
