import Pipeworks.Graph.Basic
/-!
Graphs as JSON. The fields of a structure are written in the order of its declaration; an absent name, schema
or number is left out.
-/
namespace Pipeworks

open Json (Decoder)
open Json.Record (once need)

namespace NodeKind

def decoder : Decoder NodeKind := Decoder.variant names ofName?

def json (k : NodeKind) : Json := .str k.name

end NodeKind

namespace NodeRef

def json (n : NodeRef) : Json := .obj [("kind", n.kind.json), ("id", .int n.id)]

/-- The members of an object that are its kind or its number. -/
def relevant (key : String) : Bool := key == "kind" || key == "id"

/-- Passes over members up to the next relevant one. -/
def next? : List (Except Json.SyntaxError String × Json.Doc) →
    Except Json.DecodeError (Option (String × Json.Doc × List (Except Json.SyntaxError String × Json.Doc)))
  | [] => .ok none
  | (k, x) :: rest => do
    let key ← k.mapError .malformed
    if relevant key then return some (key, x, rest)
    x.ignore
    next? rest

/-- A reference is given by its kind and its number, under these keys or in this order. -/
def decoder : Decoder NodeRef := fun p x =>
  match x with
  | .object members fault _ => do
    let p ← p.enter
    match ← next? members with
    | none =>
      Decoder.closing fault
      throw (.missingField "kind")
    | some ("kind", x, rest) => do
      let kind ← NodeKind.decoder p x
      match ← next? rest with
      | none =>
        Decoder.closing fault
        throw (.missingField "id")
      | some ("kind", _, _) => throw (.duplicateField "kind")
      | some (_, x, rest) => do
        let id ← Decoder.int64 p x
        finish kind id (← next? rest) fault
    | some (_, x, rest) => do
      x.keep p
      match ← next? rest with
      | none =>
        Decoder.closing fault
        throw (.missingField "kind")
      | some ("kind", y, rest) => do
        let kind ← NodeKind.decoder p y
        let id ← Decoder.int64 (.top .kept) x
        finish kind id (← next? rest) fault
      | some _ => throw (.duplicateField "id")
  | .array items fault => do
    let p ← p.enter
    match items with
    | [] =>
      Decoder.closing fault
      throw (.invalidLength 0 "adjacently tagged enum NodeRef")
    | [x] => do
      let _ ← NodeKind.decoder p x
      Decoder.closing fault
      throw (.invalidLength 1 "adjacently tagged enum NodeRef")
    | x :: y :: rest => do
      let kind ← NodeKind.decoder p x
      let id ← Decoder.int64 p y
      Json.Record.surplus p 2 items.length rest fault
      return ⟨kind, id⟩
  | x => .error (x.mismatch "adjacently tagged enum NodeRef")
where
  /-- Nothing relevant may follow. -/
  finish (kind : NodeKind) (id : Int) (left : Option (String × Json.Doc × List _))
      (fault : Option (Json.SyntaxError × Json.SyntaxError)) : Except Json.DecodeError NodeRef :=
    match left with
    | some (key, _, _) => .error (.duplicateField key)
    | none => do
      Decoder.closing fault
      return ⟨kind, id⟩

end NodeRef

namespace Schema

def decoder : Decoder Schema := Decoder.map Decoder.string

def json (s : Schema) : Json := .obj (s.map fun (k, v) => (k, .str v))

end Schema

namespace Endpoint

structure Draft where
  id : Option Int := none
  name : Option (Option String) := none
  topic : Option String := none
  broker : Option String := none
  schema : Option (Option Schema) := none

/-- Inputs and outputs have the same fields; only the name of the structure differs. -/
def format (structName : String) : Json.Record Draft Endpoint where
  name := structName
  fields := ["id", "name", "topic", "broker_address", "schema"]
  blank := {}
  read key p x d :=
    match key with
    | "id" => once "id" d.id Decoder.int64 p x fun v => { d with id := v }
    | "name" => once "name" d.name (Decoder.option Decoder.string) p x fun v => { d with name := v }
    | "topic" => once "topic" d.topic Decoder.string p x fun v => { d with topic := v }
    | "broker_address" =>
      once "broker_address" d.broker Decoder.string p x fun v => { d with broker := v }
    | "schema" =>
      once "schema" d.schema (Decoder.option Schema.decoder) p x fun v => { d with schema := v }
    | _ => none
  finish d := do
    return ⟨← need "id" d.id, d.name.join, ← need "topic" d.topic, ← need "broker_address" d.broker,
      d.schema.join⟩

def json (e : Endpoint) : Json :=
  .obj <| Json.present [("id", some (.int e.id)), ("name", e.name.map .str), ("topic", some (.str e.topic)),
    ("broker_address", some (.str e.broker)), ("schema", e.schema.map Schema.json)]

end Endpoint

namespace Transformation

structure Draft where
  id : Option Int := none
  name : Option (Option String) := none
  source : Option String := none
  schemaIn : Option (Option Schema) := none
  schemaOut : Option (Option Schema) := none

def format : Json.Record Draft Transformation where
  name := "TransformationNode"
  fields := ["id", "name", "source_text", "schema_in", "schema_out"]
  blank := {}
  read key p x d :=
    match key with
    | "id" => once "id" d.id Decoder.int64 p x fun v => { d with id := v }
    | "name" => once "name" d.name (Decoder.option Decoder.string) p x fun v => { d with name := v }
    | "source_text" => once "source_text" d.source Decoder.string p x fun v => { d with source := v }
    | "schema_in" =>
      once "schema_in" d.schemaIn (Decoder.option Schema.decoder) p x fun v => { d with schemaIn := v }
    | "schema_out" =>
      once "schema_out" d.schemaOut (Decoder.option Schema.decoder) p x fun v => { d with schemaOut := v }
    | _ => none
  finish d := do
    return ⟨← need "id" d.id, d.name.join, ← need "source_text" d.source, d.schemaIn.join,
      d.schemaOut.join⟩

def json (t : Transformation) : Json :=
  .obj <| Json.present [("id", some (.int t.id)), ("name", t.name.map .str),
    ("source_text", some (.str t.source)), ("schema_in", t.schemaIn.map Schema.json),
    ("schema_out", t.schemaOut.map Schema.json)]

end Transformation

namespace Flow

structure Draft where
  id : Option (Option Int) := none
  startKind : Option NodeKind := none
  startId : Option Int := none
  endKind : Option NodeKind := none
  endId : Option Int := none

def format : Json.Record Draft Flow where
  name := "Flow"
  fields := ["id", "start_kind", "start_id", "end_kind", "end_id"]
  blank := {}
  read key p x d :=
    match key with
    | "id" => once "id" d.id (Decoder.option Decoder.int64) p x fun v => { d with id := v }
    | "start_kind" => once "start_kind" d.startKind NodeKind.decoder p x fun v => { d with startKind := v }
    | "start_id" => once "start_id" d.startId Decoder.int64 p x fun v => { d with startId := v }
    | "end_kind" => once "end_kind" d.endKind NodeKind.decoder p x fun v => { d with endKind := v }
    | "end_id" => once "end_id" d.endId Decoder.int64 p x fun v => { d with endId := v }
    | _ => none
  finish d := do
    return ⟨d.id.join, ⟨← need "start_kind" d.startKind, ← need "start_id" d.startId⟩,
      ⟨← need "end_kind" d.endKind, ← need "end_id" d.endId⟩⟩

def json (f : Flow) : Json :=
  .obj <| Json.present [("id", f.id.map .int), ("start_kind", some f.source.kind.json),
    ("start_id", some (.int f.source.id)), ("end_kind", some f.target.kind.json),
    ("end_id", some (.int f.target.id))]

end Flow

namespace Graph

def inputDecoder : Decoder Endpoint := (Endpoint.format "InputNode").decoder
def outputDecoder : Decoder Endpoint := (Endpoint.format "OutputNode").decoder

structure Draft where
  pipeline : Option Int := none
  name : Option String := none
  inputs : Option (List Endpoint) := none
  outputs : Option (List Endpoint) := none
  transformations : Option (List Transformation) := none
  flows : Option (List Flow) := none

def format : Json.Record Draft Graph where
  name := "PipelineGraph"
  fields := ["pipeline_id", "name", "inputs", "outputs", "transformations", "flows"]
  blank := {}
  read key p x d :=
    match key with
    | "pipeline_id" => once "pipeline_id" d.pipeline Decoder.int64 p x fun v => { d with pipeline := v }
    | "name" => once "name" d.name Decoder.string p x fun v => { d with name := v }
    | "inputs" => once "inputs" d.inputs (Decoder.list inputDecoder) p x fun v => { d with inputs := v }
    | "outputs" =>
      once "outputs" d.outputs (Decoder.list outputDecoder) p x fun v => { d with outputs := v }
    | "transformations" =>
      once "transformations" d.transformations (Decoder.list Transformation.format.decoder) p x fun v =>
        { d with transformations := v }
    | "flows" => once "flows" d.flows (Decoder.list Flow.format.decoder) p x fun v => { d with flows := v }
    | _ => none
  finish d := do
    return {
      pipeline := ← need "pipeline_id" d.pipeline
      name := d.name.getD ""
      inputs := d.inputs.getD []
      outputs := d.outputs.getD []
      transformations := d.transformations.getD []
      flows := d.flows.getD [] }

def decoder : Decoder Graph := format.decoder

def json (g : Graph) : Json :=
  .obj [("pipeline_id", .int g.pipeline), ("name", .str g.name), ("inputs", .arr (g.inputs.map Endpoint.json)),
    ("outputs", .arr (g.outputs.map Endpoint.json)),
    ("transformations", .arr (g.transformations.map Transformation.json)),
    ("flows", .arr (g.flows.map Flow.json))]

end Graph

end Pipeworks
