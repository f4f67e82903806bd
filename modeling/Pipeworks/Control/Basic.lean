import Pipeworks.Control.MediaType
import Pipeworks.Control.Route
import Pipeworks.Supervisor.Schedule
/-!
The control surface of a supervisor: requests by which pipelines are checked, started, stopped and asked for, and
by which workers hand in their events.
-/
namespace Pipeworks

structure Request where
  method : String
  path : String
  contentType : Option String := none
  body : ByteArray := .empty

/-- An answer to a request; what is not JSON is left out. -/
structure Response where
  code : Nat
  body : Option Json := none

namespace Control

def ok (j : Json) : Response := ⟨200, some j⟩

/-- The status that tells of an error. -/
def statusOf : Error → ControlStatus
  | .validation _ => .invalid
  | .compile _ => .invalid
  | .pipelineNotFound _ => .notFound
  | .alreadyRunning _ => .rejected
  | _ => .failed

def failure (id : PipelineId) (e : Error) : Response :=
  ⟨e.httpStatus, some (ControlResponse.json ⟨id, statusOf e, e.message⟩)⟩

/-- The answer to the question whether a pipeline is valid. -/
def validity (id : PipelineId) (r : Report) : Json :=
  let (status, message) := if r.valid then (ControlStatus.valid, "Pipeline is valid") else (.invalid, r.summary)
  .obj [("pipeline_id", .int id), ("status", status.json), ("message", .str message), ("report", r.json)]

/-- The blanks of ASCII, as bytes. -/
def isBlankByte (b : UInt8) : Bool := b ∈ [9, 10, 12, 13, 32]

/-- The options of a start; an empty body leaves them all out. -/
def startOptions (body : ByteArray) : Except Error StartOptions :=
  if body.toList.all isBlankByte then .ok ⟨none, none⟩
  else
    (Json.decodeBytes StartOptions.format.decoder body).mapError fun e =>
      .validation ("invalid start options: " ++ e.message)

/-- Reads an event that was handed in; what follows it does not matter. The code tells what is wrong: the type of
the body, its form, or its content. -/
def readEvent (r : Request) : Except Nat Event :=
  if (r.contentType.bind MediaType.parse?).any (·.isJson) then
    match Event.decoder (.top .text) (Json.Document.ofBytes r.body).root with
    | .ok e => .ok e
    | .error (.malformed _) => .error 400
    | .error _ => .error 422
  else .error 415

def received : Ingest → Json
  | .accepted => .obj [("ok", .bool true)]
  | .ignored => .obj [("ignored", .bool true)]

def answered (id : PipelineId) : Option Answer → Response
  | some (.started (.ok r)) => ok r.json
  | some (.started (.error e)) => failure id e
  | some (.control r) => ok r.json
  | some (.status r) => ok r.json
  | _ => ⟨500, none⟩

/-- Carries out an operation on a pipeline. -/
def operate (env : Surroundings) (id : PipelineId) (body : ByteArray) (s : Supervisor) :
    Operation → Response × Supervisor
  | .validate =>
    match Supervisor.validate env id with
    | .ok r => (ok (validity id r), s)
    | .error e => (failure id e, s)
  | .start =>
    match startOptions body with
    | .error e => (failure id e, s)
    | .ok o => call (.startOf id o)
  | .stop => call (.stopOf id)
  | .abort => call (.abortOf id)
  | .status => call (.statusOf id)
where
  call (c : Call) : Response × Supervisor :=
    let (a, s) := Supervisor.perform env c s
    (answered id a, s)

/-- Answers a request on a route. Observing needs a connection that outlives the request, which a request alone
cannot give. -/
def follow (env : Surroundings) (r : Request) (s : Supervisor) : Route → Response × Supervisor
  | .pipeline id op =>
    match Route.readId? id with
    | none => (⟨400, none⟩, s)
    | some id => operate env id r.body s op
  | .events =>
    match readEvent r with
    | .error code => (⟨code, none⟩, s)
    | .ok e =>
      let (a, s) := s.ingest e
      (ok (received a), s)
  | .observers => (⟨if r.method = "GET" then 400 else 405, none⟩, s)

def respond (env : Surroundings) (r : Request) (s : Supervisor) : Response × Supervisor :=
  match Route.ofPath? r.path with
  | none => (⟨404, none⟩, s)
  | some route =>
    if route.takes r.method then
      let (a, s) := follow env r s route
      (if r.method = "HEAD" then { a with body := none } else a, s)
    else (⟨405, none⟩, s)

end Control

end Pipeworks
