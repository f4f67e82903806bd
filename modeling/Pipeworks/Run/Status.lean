import Pipeworks.Graph.Format
import Pipeworks.Timestamp
/-!
The statuses of runs, of their processes, and of control operations, and the reports that carry them.
-/
namespace Pipeworks

open Json (Decoder)
open Json.Record (once need)

inductive RunStatus where
  | starting
  | running
  | completed
  | failed
  | aborted
deriving DecidableEq, Repr, Inhabited

namespace RunStatus

/-- A terminal status is never left. -/
def isTerminal : RunStatus → Bool
  | starting => false
  | running => false
  | _ => true

def name : RunStatus → String
  | starting => "starting"
  | running => "running"
  | completed => "completed"
  | failed => "failed"
  | aborted => "aborted"

def all : List RunStatus := [starting, running, completed, failed, aborted]

def decoder : Decoder RunStatus :=
  Decoder.variant (all.map name) fun s => all.find? (·.name == s)

def json (s : RunStatus) : Json := .str s.name

end RunStatus

structure RunState where
  pipeline : PipelineId
  status : RunStatus
  totalSegments : Nat
  completedSegments : Nat
  message : String
deriving DecidableEq, Repr, Inhabited

namespace RunState

def initial (pipeline : PipelineId) (segments : Nat) : RunState :=
  ⟨pipeline, .starting, segments, 0, "Pipeline initialized"⟩

def fields (s : RunState) : List (String × Json) :=
  [("pipeline_id", .int s.pipeline), ("status", s.status.json), ("total_segments", Json.nat s.totalSegments),
    ("completed_segments", Json.nat s.completedSegments), ("message", .str s.message)]

def json (s : RunState) : Json := .obj s.fields

end RunState

/-- The state of a run with the moment at which the run was made known. -/
structure Snapshot where
  state : RunState
  created : Timestamp
deriving DecidableEq, Repr

namespace Snapshot

structure Draft where
  pipeline : Option Int := none
  status : Option RunStatus := none
  total : Option Nat := none
  completed : Option Nat := none
  message : Option String := none
  created : Option Timestamp := none

def format : Json.Record Draft Snapshot where
  name := "RunState"
  fields := ["pipeline_id", "status", "total_segments", "completed_segments", "message", "created_at"]
  blank := {}
  read key p x d :=
    match key with
    | "pipeline_id" => once "pipeline_id" d.pipeline Decoder.int64 p x fun v => { d with pipeline := v }
    | "status" => once "status" d.status RunStatus.decoder p x fun v => { d with status := v }
    | "total_segments" => once "total_segments" d.total Decoder.count p x fun v => { d with total := v }
    | "completed_segments" =>
      once "completed_segments" d.completed Decoder.count p x fun v => { d with completed := v }
    | "message" => once "message" d.message Decoder.string p x fun v => { d with message := v }
    | "created_at" => once "created_at" d.created Timestamp.decoder p x fun v => { d with created := v }
    | _ => none
  finish d := do
    return ⟨⟨← need "pipeline_id" d.pipeline, ← need "status" d.status, ← need "total_segments" d.total,
      ← need "completed_segments" d.completed, ← need "message" d.message⟩, ← need "created_at" d.created⟩

def json (s : Snapshot) : Json := .obj (s.state.fields ++ [("created_at", s.created.json)])

end Snapshot

/-- Whether the processes of a run are alive. -/
inductive ProcessStatus where
  | running
  | failed
  | stopped
deriving DecidableEq, Repr, Inhabited

namespace ProcessStatus

def name : ProcessStatus → String
  | running => "running"
  | failed => "failed"
  | stopped => "stopped"

def all : List ProcessStatus := [running, failed, stopped]

def decoder : Decoder ProcessStatus :=
  Decoder.variant (all.map name) fun s => all.find? (·.name == s)

def json (s : ProcessStatus) : Json := .str s.name

end ProcessStatus

/-- The outcome of a validation: a pipeline is valid when there is no error. -/
structure Report where
  valid : Bool
  errors : List String
  warnings : List String
deriving DecidableEq, Repr, Inhabited

namespace Report

def of (errors warnings : List String) : Report := ⟨errors.isEmpty, errors, warnings⟩

def summary (r : Report) : String := "; ".intercalate r.errors

structure Draft where
  valid : Option Bool := none
  errors : Option (List String) := none
  warnings : Option (List String) := none

def format : Json.Record Draft Report where
  name := "ValidationReport"
  fields := ["valid", "errors", "warnings"]
  blank := {}
  read key p x d :=
    match key with
    | "valid" => once "valid" d.valid Decoder.bool p x fun v => { d with valid := v }
    | "errors" => once "errors" d.errors (Decoder.list Decoder.string) p x fun v => { d with errors := v }
    | "warnings" =>
      once "warnings" d.warnings (Decoder.list Decoder.string) p x fun v => { d with warnings := v }
    | _ => none
  finish d := do
    return ⟨← need "valid" d.valid, ← need "errors" d.errors, ← need "warnings" d.warnings⟩

def json (r : Report) : Json :=
  .obj [("valid", .bool r.valid), ("errors", Json.strs r.errors), ("warnings", Json.strs r.warnings)]

end Report

/-- What a control operation found or did. -/
inductive ControlStatus where
  | valid
  | invalid
  | started
  | running
  | failed
  | stopped
  | aborted
  | notFound
  | rejected
deriving DecidableEq, Repr, Inhabited

namespace ControlStatus

def name : ControlStatus → String
  | valid => "valid"
  | invalid => "invalid"
  | started => "started"
  | running => "running"
  | failed => "failed"
  | stopped => "stopped"
  | aborted => "aborted"
  | notFound => "not_found"
  | rejected => "rejected"

def all : List ControlStatus :=
  [valid, invalid, started, running, failed, stopped, aborted, notFound, rejected]

def decoder : Decoder ControlStatus :=
  Decoder.variant (all.map name) fun s => all.find? (·.name == s)

def json (s : ControlStatus) : Json := .str s.name

end ControlStatus

structure ControlResponse where
  pipeline : PipelineId
  status : ControlStatus
  message : String
deriving DecidableEq, Repr, Inhabited

namespace ControlResponse

structure Draft where
  pipeline : Option Int := none
  status : Option ControlStatus := none
  message : Option String := none

def format : Json.Record Draft ControlResponse where
  name := "ControlResponse"
  fields := ["pipeline_id", "status", "message"]
  blank := {}
  read key p x d :=
    match key with
    | "pipeline_id" => once "pipeline_id" d.pipeline Decoder.int64 p x fun v => { d with pipeline := v }
    | "status" => once "status" d.status ControlStatus.decoder p x fun v => { d with status := v }
    | "message" => once "message" d.message Decoder.string p x fun v => { d with message := v }
    | _ => none
  finish d := do
    return ⟨← need "pipeline_id" d.pipeline, ← need "status" d.status, ← need "message" d.message⟩

def json (r : ControlResponse) : Json :=
  .obj [("pipeline_id", .int r.pipeline), ("status", r.status.json), ("message", .str r.message)]

end ControlResponse

structure ProducerOptions where
  channels : Nat
  frequency : Float

namespace ProducerOptions

structure Draft where
  channels : Option Nat := none
  frequency : Option Float := none

def format : Json.Record Draft ProducerOptions where
  name := "ProducerOptions"
  fields := ["n_channels", "frequency_hz"]
  blank := {}
  read key p x d :=
    match key with
    | "n_channels" => once "n_channels" d.channels Decoder.count p x fun v => { d with channels := v }
    | "frequency_hz" => once "frequency_hz" d.frequency Decoder.float p x fun v => { d with frequency := v }
    | _ => none
  finish d := .ok ⟨d.channels.getD 10, d.frequency.getD 1.0⟩

def json (o : ProducerOptions) : Json :=
  .obj [("n_channels", Json.nat o.channels), ("frequency_hz", Json.ofFloat o.frequency)]

end ProducerOptions

structure StartOptions where
  /-- The run completes after this time; without it, it goes on until it is stopped. -/
  runtime : Option Duration
  producer : Option ProducerOptions

namespace StartOptions

instance : Inhabited StartOptions := ⟨⟨none, none⟩⟩

structure Draft where
  runtime : Option (Option Duration) := none
  producer : Option (Option ProducerOptions) := none

def format : Json.Record Draft StartOptions where
  name := "StartOptions"
  fields := ["runtime", "producer"]
  blank := {}
  read key p x d :=
    match key with
    | "runtime" =>
      once "runtime" d.runtime (Decoder.option Duration.decoder) p x fun v => { d with runtime := v }
    | "producer" =>
      once "producer" d.producer (Decoder.option ProducerOptions.format.decoder) p x fun v =>
        { d with producer := v }
    | _ => none
  finish d := .ok ⟨d.runtime.join, d.producer.join⟩

def json (o : StartOptions) : Json :=
  .obj <| Json.present [("runtime", o.runtime.map Duration.json),
    ("producer", o.producer.map ProducerOptions.json)]

end StartOptions

end Pipeworks
