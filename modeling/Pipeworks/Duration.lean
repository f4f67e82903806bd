import Pipeworks.Json.Decode
import Pipeworks.Text.Blank
import Pipeworks.Text.Unsigned
/-!
Lengths of time, and their texts: a number with a unit (`250ms`, `3s`, `5m`, `2h`, `1d`).
-/
namespace Pipeworks

/-- A length of time in nanoseconds. -/
structure Duration where
  nanos : Nat
deriving DecidableEq, Repr, Inhabited

inductive DurationError where
  | unknownFormat (text : String)
  | invalidNumber (e : Text.UnsignedError)
deriving DecidableEq, Repr

def DurationError.message : DurationError → String
  | unknownFormat s => "unknown duration format: " ++ s
  | invalidNumber e => "invalid duration: " ++ e.message

namespace Duration

def ofMillis (n : Nat) : Duration := ⟨n * 1000000⟩

def ofSecs (n : Nat) : Duration := ofMillis (n * 1000)

def millis (d : Duration) : Nat := d.nanos / 1000000

instance : LE Duration := ⟨fun a b => a.nanos ≤ b.nanos⟩
instance : LT Duration := ⟨fun a b => a.nanos < b.nanos⟩
instance (a b : Duration) : Decidable (a ≤ b) := inferInstanceAs (Decidable (a.nanos ≤ b.nanos))
instance (a b : Duration) : Decidable (a < b) := inferInstanceAs (Decidable (a.nanos < b.nanos))

protected def min (a b : Duration) : Duration := if b < a then b else a

/-- The units and their milliseconds, in the order in which they are looked for at the end of a text. -/
def units : List (String × Nat) :=
  [("ms", 1), ("s", 1000), ("m", 60000), ("h", 3600000), ("d", 86400000)]

/-- The first unit that the text ends with decides; what stands before it must be a number. The product of the number
and the factor is taken without a bound: texts for which it does not fit into 64 bits are not meant to be read by
this. -/
def parseWith : List (String × Nat) → List Char → Except DurationError Duration
  | [], cs => .error (.unknownFormat (String.ofList cs))
  | (unit, factor) :: rest, cs =>
    match Text.dropEnding? cs unit.toList with
    | none => parseWith rest cs
    | some number =>
      match Text.readUnsigned Text.bound64 number with
      | .ok n => .ok (ofMillis (n * factor))
      | .error e => .error (.invalidNumber e)

/-- Reads a duration; blanks around it do not matter. -/
def parse (s : String) : Except DurationError Duration :=
  parseWith units (Text.trim s.toList)

/-- A duration is written in milliseconds. -/
def text (d : Duration) : String := toString d.millis ++ "ms"

def json (d : Duration) : Json := .str d.text

/-- A duration in a document is a count of seconds or a text. -/
def decoder : Json.Decoder Duration := Json.Decoder.kept fun _ x =>
  match x with
  | .number (.ok (.int i)) =>
    if 0 ≤ i ∧ i < 18446744073709551616 then .ok (ofSecs i.toNat) else .error (.noReading "RawDuration")
  | .text (.ok s) => (parse s).mapError fun e => .refused e.message
  | _ => .error (.noReading "RawDuration")

/-- The digits of a fraction of a given width, without the zeros it ends with. -/
def fractionText (width n : Nat) : String :=
  let ds := Nat.toDigits 10 n
  let padded := List.replicate (width - ds.length) '0' ++ ds
  let kept := (padded.reverse.dropWhile (· = '0')).reverse
  if kept.isEmpty then "" else "." ++ String.ofList kept

/-- A duration within a message, in the largest unit of which it has one. -/
def shown (d : Duration) : String :=
  if 1000000000 ≤ d.nanos then
    toString (d.nanos / 1000000000) ++ fractionText 9 (d.nanos % 1000000000) ++ "s"
  else if 1000000 ≤ d.nanos then
    toString (d.nanos / 1000000) ++ fractionText 6 (d.nanos % 1000000) ++ "ms"
  else if 1000 ≤ d.nanos then
    toString (d.nanos / 1000) ++ fractionText 3 (d.nanos % 1000) ++ "µs"
  else toString d.nanos ++ "ns"

end Duration

/-- A repeated task: how often, and for how long at most. -/
structure Recurrence where
  every : Duration
  limit : Option Duration
deriving DecidableEq, Repr

namespace Recurrence

structure Draft where
  every : Option Duration := none
  limit : Option (Option Duration) := none

def format : Json.Record Draft Recurrence where
  name := "Holder"
  fields := ["every", "limit"]
  blank := {}
  read key p x d :=
    match key with
    | "every" => Json.Record.once "every" d.every Duration.decoder p x fun v => { d with every := v }
    | "limit" =>
      Json.Record.once "limit" d.limit (Json.Decoder.option Duration.decoder) p x fun v =>
        { d with limit := v }
    | _ => none
  finish d := do return ⟨← Json.Record.need "every" d.every, d.limit.join⟩

def json (r : Recurrence) : Json :=
  .obj [("every", r.every.json), ("limit", Json.ofOption Duration.json r.limit)]

end Recurrence

end Pipeworks
