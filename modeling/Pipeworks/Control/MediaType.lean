/-!
Media types: a type, a subtype, and parameters after semicolons. A subtype may end in a suffix after a plus sign.
-/
namespace Pipeworks

structure MediaType where
  type : String
  subtype : String
  suffix : Option String
deriving DecidableEq, Repr

namespace MediaType

def isToken (c : Char) : Bool := c.isAlphanum || c ∈ "!#$%&'*+-.^_\x60|~".toList

/-- The characters that may stand between quotation marks. -/
def isQuotable (c : Char) : Bool := (' ' ≤ c && c ≤ '~' && c ≠ '"') || c = '\t'

/-- A token that something follows at the separator, and what stands after the separator. -/
def tokenBefore? (sep : Char) (cs : List Char) : Option (List Char) :=
  let name := cs.takeWhile fun c => isToken c && c ≠ sep
  match name, cs.drop name.length with
  | _ :: _, c :: rest => if c = sep then some rest else none
  | _, _ => none

/-- What stands after the value of a parameter and the semicolon that follows it. -/
def afterValue? (cs : List Char) : Option (List Char) :=
  match cs with
  | '"' :: cs =>
    match cs.dropWhile isQuotable with
    | '"' :: rest =>
      match rest.dropWhile (· = ' ') with
      | [] => some []
      | ';' :: rest => some rest
      | _ => none
    | _ => none
  | cs =>
    let value := cs.takeWhile isToken
    match cs.drop value.length with
    | [] => some []
    | ';' :: rest => if value.isEmpty then none else some rest
    | _ => none

/-- Whether the parameters are well formed. The first argument bounds their number. -/
def parameters (n : Nat) (cs : List Char) : Bool :=
  match n, cs with
  | _, [] => true
  | 0, _ => false
  | n + 1, cs =>
    match (tokenBefore? '=' (cs.dropWhile (· = ' '))).bind afterValue? with
    | some rest => parameters n rest
    | none => false

/-- A subtype and the suffix after its last plus sign; a plus sign at the beginning belongs to the subtype. -/
def splitSuffix (cs : List Char) : List Char × Option (List Char) :=
  let suffix := cs.reverse.takeWhile (· ≠ '+')
  if suffix.length + 1 < cs.length then (cs.take (cs.length - suffix.length - 1), some suffix.reverse)
  else (cs, none)

/-- Reads a media type; letters of both cases are the same. -/
def parse? (s : String) : Option MediaType :=
  let cs := s.toList.map Char.toLower
  let type := cs.takeWhile isToken
  match type, cs.drop type.length with
  | _ :: _, '/' :: rest =>
    let name := rest.takeWhile isToken
    let (subtype, suffix) := splitSuffix name
    let result : MediaType := ⟨String.ofList type, String.ofList subtype, suffix.map String.ofList⟩
    match rest.drop name.length with
    | [] => some result
    | ';' :: ps => if ¬name.isEmpty ∧ parameters ps.length ps then some result else none
    | _ => none
  | _, _ => none

def isJson (m : MediaType) : Bool := m.type = "application" && (m.subtype = "json" || m.suffix = some "json")

end MediaType

end Pipeworks
