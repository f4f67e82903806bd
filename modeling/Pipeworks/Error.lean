import Pipeworks.Graph.Format
/-!
The ways in which an operation of the supervisor fails.
-/
namespace Pipeworks

inductive Error where
  /-- The pipeline or its options were refused before anything was started. -/
  | validation (text : String)
  | compile (text : String)
  /-- A script could not be made a step. -/
  | load (text : String)
  /-- A step failed on a record. -/
  | script (text : String)
  /-- A cluster could not go on. -/
  | runtimeFault (segment : Nat) (text : String)
  | transport (address text : String)
  | spawn (text : String)
  | pipelineNotFound (id : PipelineId)
  | alreadyRunning (id : PipelineId)
  | store (text : String)
  | config (text : String)
  | io (text : String)
  | json (e : Json.DecodeError)
  | other (text : String)

namespace Error

def message : Error → String
  | validation t => "Pipeline validation failed: " ++ t
  | compile t => "Execution plan could not be built: " ++ t
  | load t => "Transformation could not be loaded: " ++ t
  | script t => "Transformation raised: " ++ t
  | runtimeFault segment t => s!"Runtime fault in segment {segment}: {t}"
  | transport address t => s!"Broker at {address} unavailable: {t}"
  | spawn t => "Failed to spawn worker process: " ++ t
  | pipelineNotFound id => s!"Pipeline {id} not found"
  | alreadyRunning id => s!"Pipeline {id} is already running"
  | store t => "Graph store error: " ++ t
  | config t => "Configuration error: " ++ t
  | io t => "IO error: " ++ t
  | json e => "JSON error: " ++ e.message
  | other t => t

def kind : Error → String
  | validation _ => "Validation"
  | compile _ => "Compile"
  | load _ => "Load"
  | script _ => "Script"
  | runtimeFault .. => "RuntimeFault"
  | transport .. => "Transport"
  | spawn _ => "Spawn"
  | pipelineNotFound _ => "PipelineNotFound"
  | alreadyRunning _ => "AlreadyRunning"
  | store _ => "Store"
  | config _ => "Config"
  | io _ => "Io"
  | json _ => "Json"
  | other _ => "Other"

/-- Whether the error is found before any process is started. -/
def isTerminal : Error → Bool
  | validation _ => true
  | compile _ => true
  | pipelineNotFound _ => true
  | _ => false

/-- The status code with which the control surface answers. -/
def httpStatus : Error → Nat
  | validation _ => 400
  | compile _ => 400
  | pipelineNotFound _ => 404
  | alreadyRunning _ => 409
  | transport .. => 502
  | _ => 500

end Error

end Pipeworks
