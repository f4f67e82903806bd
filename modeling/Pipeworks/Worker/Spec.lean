import Pipeworks.Worker.Producer
import Pipeworks.Plan.Basic
import Pipeworks.Script.Step
/-!
The description from which a worker process knows its job. It travels as JSON in the environment of the process;
the role of the worker stands beside the other fields, under a tag.
-/
namespace Pipeworks

open Json (Decoder)
open Json.Record (once need)

/-- What a worker does: it runs a cluster, or it produces records. -/
inductive Role where
  | cluster (c : Cluster)
  | producer (p : ProducerSpec)

structure WorkerSpec where
  pipeline : PipelineId
  segment : Nat
  role : Role
  /-- Where events are sent; without it, they are discarded. -/
  endpoint : Option String
  streamEvents : Bool
  /-- The time that a script has for one record. -/
  budget : Duration
  /-- How many events may wait for their delivery. -/
  queueCapacity : Nat

namespace WorkerSpec

def defaultQueue : Nat := 1024

def ofCluster (pipeline : PipelineId) (c : Cluster) : WorkerSpec :=
  ⟨pipeline, c.index, .cluster c, none, true, Script.defaultBudget, defaultQueue⟩

/-- The job of producing records for a segment. -/
def ofProducer (pipeline : PipelineId) (segment : Nat) (p : ProducerSpec) : WorkerSpec :=
  ⟨pipeline, segment, .producer p, none, true, Script.defaultBudget, defaultQueue⟩

def isProducer (s : WorkerSpec) : Bool :=
  match s.role with
  | .producer _ => true
  | .cluster _ => false

/-- The name under which the process is spoken of. -/
def label (s : WorkerSpec) : String :=
  match s.role with
  | .cluster c => s!"worker[{c.index}@{c.broker}]"
  | .producer p => s!"producer[{p.topic}@{p.broker}]"

/-! ### Writing -/

def roleFields : Role → List (String × Json)
  | .cluster c => [("role", .str "cluster"), ("cluster", c.json)]
  | .producer p => [("role", .str "producer"), ("producer", p.json)]

def json (s : WorkerSpec) : Json :=
  .obj ([("pipeline_id", .int s.pipeline), ("segment_index", Json.nat s.segment)] ++ roleFields s.role ++
    [("event_endpoint", Json.ofOption .str s.endpoint), ("emit_stream_events", .bool s.streamEvents),
      ("step_budget", s.budget.json), ("event_queue_capacity", Json.nat s.queueCapacity)])

def text (s : WorkerSpec) : String := s.json.compact

/-! ### Reading -/

structure Draft where
  pipeline : Option Int := none
  segment : Option Nat := none
  endpoint : Option (Option String) := none
  streamEvents : Option Bool := none
  budget : Option Duration := none
  queueCapacity : Option Nat := none

/-- Reads a field that stands for itself. -/
def readField (key : String) (p : Json.Place) (x : Json.Doc) (d : Draft) :
    Option (Except Json.DecodeError Draft) :=
  match key with
  | "pipeline_id" => once "pipeline_id" d.pipeline Decoder.int64 p x fun v => { d with pipeline := v }
  | "segment_index" => once "segment_index" d.segment Decoder.count p x fun v => { d with segment := v }
  | "event_endpoint" =>
    once "event_endpoint" d.endpoint (Decoder.option Decoder.string) p x fun v => { d with endpoint := v }
  | "emit_stream_events" =>
    once "emit_stream_events" d.streamEvents Decoder.bool p x fun v => { d with streamEvents := v }
  | "step_budget" => once "step_budget" d.budget Duration.decoder p x fun v => { d with budget := v }
  | "event_queue_capacity" =>
    once "event_queue_capacity" d.queueCapacity Decoder.count p x fun v => { d with queueCapacity := v }
  | _ => none

/-- Reads the fields that stand for themselves and keeps all others for the role. -/
def readFields (p : Json.Place) (d : Draft) (others : List (String × Json.Doc)) :
    List (Except Json.SyntaxError String × Json.Doc) →
    Except Json.DecodeError (Draft × List (String × Json.Doc))
  | [] => .ok (d, others.reverse)
  | (k, x) :: rest => do
    let key ← k.mapError .malformed
    match readField key p x d with
    | some r => readFields p (← r) others rest
    | none => do
      x.keep p
      readFields p d ((key, x) :: others) rest

/-- The tag of a role, by name or by number. -/
def roleTag (x : Json.Doc) : Except Json.DecodeError String :=
  match x with
  | .text (.ok "cluster") => .ok "cluster"
  | .text (.ok "producer") => .ok "producer"
  | .text (.ok s) => .error (.unknownVariant s ["cluster", "producer"])
  | .number (.ok (.int i)) =>
    if i = 0 then .ok "cluster"
    else if i = 1 then .ok "producer"
    else if 0 < i then .error (.invalidValue (.integer i) "variant index 0 <= i < 2")
    else .error (x.mismatch "variant identifier")
  | x => .error (x.mismatch "variant identifier")

/-- The one member of this key; there may not be two. -/
def single {α : Type} (key : String) (d : Json.Doc → Except Json.DecodeError α) :
    List (String × Json.Doc) → Option α → Except Json.DecodeError α
  | [], none => .error (.missingField key)
  | [], some a => .ok a
  | (k, x) :: rest, found =>
    if k = key then
      if found.isSome then .error (.duplicateField key)
      else do single key d rest (some (← d x))
    else single key d rest found

/-- The role that the kept members describe. -/
def readRole (members : List (String × Json.Doc)) : Except Json.DecodeError Role := do
  let content {α : Type} (d : Decoder α) : Json.Doc → Except Json.DecodeError α := d (.top .kept)
  match ← single "role" roleTag members none with
  | "cluster" => return .cluster (← single "cluster" (content Cluster.decoder) members none)
  | _ => return .producer (← single "producer" (content ProducerSpec.format.decoder) members none)

def decoder : Decoder WorkerSpec := fun p x =>
  match x with
  | .object members fault _ => do
    let p ← p.enter
    let (d, others) ← readFields p {} [] members
    Decoder.closing fault
    let pipeline ← need "pipeline_id" d.pipeline
    let segment ← need "segment_index" d.segment
    let role ← readRole others
    return ⟨pipeline, segment, role, d.endpoint.join, d.streamEvents.getD true,
      d.budget.getD Script.defaultBudget, d.queueCapacity.getD defaultQueue⟩
  | x => .error (x.mismatch "struct WorkerSpec")

def ofText (s : String) : Except Error WorkerSpec := (Json.decodeText decoder s).mapError .json

/-- The variable of the environment that holds the description. -/
def variableName : String := "FLOWGATE_WORKER_SPEC"

/-- Reads a description from the value of the variable. -/
def ofEnvironment : Option String → Except Error WorkerSpec
  | none => .error (.config (variableName ++ " is not set"))
  | some s => ofText s

end WorkerSpec

end Pipeworks
