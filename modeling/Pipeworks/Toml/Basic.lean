import Pipeworks.Json.Decode
/-!
TOML documents, as far as settings are written in them: keys with values at the top of the document, and tables,
of which only the names and contents matter. A value is kept with the place where it stands.
-/
namespace Pipeworks.Toml

/-- A stretch of a text, counted in characters from its start. -/
structure Span where
  start : Nat
  stop : Nat
deriving DecidableEq, Repr, Inhabited

structure Entry where
  key : String
  value : Json
  span : Span
deriving Inhabited

/-- The entries of a document in the order in which their keys first appear. -/
structure Document where
  text : String
  entries : List Entry
deriving Inhabited

/-- Why a document gives no settings: it is not well formed, or a value is not what was asked for. -/
inductive Fault where
  | malformed
  | refused (text : String) (span : Span) (cause : Json.DecodeError)

namespace Fault

def cause : Fault → String
  | malformed => "<toml syntax>"
  | refused _ _ e => e.message

/-- The lines before a position, and the characters before it on its own line. -/
def position (cs : List Char) : Nat × Nat :=
  cs.foldl (fun (line, column) c => if c = '\n' then (line + 1, 0) else (line, column + 1)) (0, 0)

def lines (cs : List Char) : List (List Char) :=
  cs.foldr (fun c ls =>
    match ls with
    | [] => [[c]]
    | l :: ls => if c = '\n' then [] :: l :: ls else (c :: l) :: ls) [[]]

def byteCount (cs : List Char) : Nat := cs.foldl (fun n c => n + c.utf8Size) 0

/-- The whole message, which shows the line and points at the value. -/
def message : Fault → String
  | malformed => "<toml syntax>"
  | refused text span e =>
    let cs := text.toList
    let (line, column) := position (cs.take span.start)
    let content := (lines cs)[line]?.getD []
    let wide := byteCount ((cs.take span.stop).drop span.start)
    let marks := max 1 (min wide (byteCount content - column))
    let number := toString (line + 1)
    let gutter := String.ofList (List.replicate (number.length + 1) ' ')
    s!"TOML parse error at line {number}, column {column + 1}\n{gutter}|\n{number} | " ++
      String.ofList content ++ s!"\n{gutter}|" ++ String.ofList (List.replicate (column + 1) ' ') ++
      String.ofList (List.replicate marks '^') ++ "\n" ++ e.message ++ "\n"

end Fault

/-- Reads the top of a document as a structure, entry by entry. -/
def Document.decode {Draft α : Type} (r : Json.Record Draft α) (d : Document) : Except Fault α := do
  let draft ← d.entries.foldlM (fun draft e =>
    match r.read e.key (.top .value) (Json.Doc.ofJson e.value) draft with
    | none => .ok draft
    | some result => result.mapError (Fault.refused d.text e.span)) r.blank
  (r.finish draft).mapError (Fault.refused d.text ⟨0, d.text.length⟩)

end Pipeworks.Toml
