import Pipeworks.Graph.Format
import Pipeworks.Json.Printer
/-!
Events of a run, sent by workers and by the supervisor to every observer.
-/
namespace Pipeworks

open Json (Decoder)
open Json.Record (once need)

/-- What an event is about. A category that is not known is kept as such and has no effect. -/
inductive Category where
  | lifecycle
  | stream
  | unknown
deriving DecidableEq, Repr, Inhabited

namespace Category

def name : Category → String
  | lifecycle => "lifecycle"
  | stream => "stream"
  | unknown => "unknown"

/-- Every other name is the unknown category. -/
def ofName : String → Category
  | "lifecycle" => lifecycle
  | "stream" => stream
  | _ => unknown

def decoder : Decoder Category :=
  Decoder.variant ["lifecycle", "stream", "unknown"] fun s => some (ofName s)

def json (c : Category) : Json := .str c.name

end Category

structure Event where
  run : PipelineId
  segment : Option Nat
  category : Category
  kind : String
  topic : Option String
  data : Json
deriving Inhabited

namespace Event

/-! The types of lifecycle events that have a meaning. -/

def segmentStarted : String := "segment_started"
def segmentCompleted : String := "segment_completed"
def failed : String := "failed"
def completed : String := "completed"
def aborted : String := "aborted"
def stopped : String := "stopped"

def lifecycle (run : PipelineId) (segment : Option Nat) (kind : String) (data : Json) : Event :=
  ⟨run, segment, .lifecycle, kind, none, data⟩

/-- A stream event: a record that came in or went out. -/
def stream (run : PipelineId) (segment : Nat) (kind topic : String) (data : Json) : Event :=
  ⟨run, some segment, .stream, kind, some topic, data⟩

def announcement (run : PipelineId) (kind message : String) : Event :=
  lifecycle run none kind (.obj [("message", .str message)])

def isLifecycle (e : Event) (kind : String) : Bool := e.category == .lifecycle && e.kind == kind

/-- The message that an event carries: a text, or the field `message` of an object, or the text of the data. -/
def message (e : Event) : String :=
  match e.data with
  | .null => ""
  | .str s => s
  | .obj fields =>
    match Json.lookup? "message" fields with
    | some (.str s) => s
    | some j => j.compact
    | none => e.data.compact
  | j => j.compact

structure Draft where
  run : Option Int := none
  segment : Option (Option Nat) := none
  category : Option Category := none
  kind : Option String := none
  topic : Option (Option String) := none
  data : Option Json := none

def format : Json.Record Draft Event where
  name := "Event"
  fields := ["run_id", "segment_index", "category", "type", "topic", "data"]
  blank := {}
  read key p x d :=
    let run := once "run_id" d.run Decoder.int64 p x fun v => { d with run := v }
    match key with
    | "run_id" => run
    | "pipeline_id" => run
    | "segment_index" =>
      once "segment_index" d.segment (Decoder.option Decoder.count) p x fun v => { d with segment := v }
    | "category" => once "category" d.category Category.decoder p x fun v => { d with category := v }
    | "type" => once "type" d.kind Decoder.string p x fun v => { d with kind := v }
    | "topic" => once "topic" d.topic (Decoder.option Decoder.string) p x fun v => { d with topic := v }
    | "data" => once "data" d.data Decoder.json p x fun v => { d with data := v }
    | _ => none
  finish d := do
    return ⟨← need "run_id" d.run, d.segment.join, ← need "category" d.category, ← need "type" d.kind,
      d.topic.join, d.data.getD .null⟩

def decoder : Decoder Event := format.decoder

def json (e : Event) : Json :=
  .obj <| Json.present [("run_id", some (.int e.run)), ("segment_index", e.segment.map Json.nat),
    ("category", some e.category.json), ("type", some (.str e.kind)), ("topic", e.topic.map .str),
    ("data", some e.data)]

def text (e : Event) : String := e.json.compact

end Event

end Pipeworks
