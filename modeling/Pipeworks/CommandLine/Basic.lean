import Pipeworks.CommandLine.Arguments
import Pipeworks.Broker.Probe
import Pipeworks.Store
import Pipeworks.Validation.Basic
import Pipeworks.Worker.Basic
/-!
The commands: what each of them reads, what it prints, and with which code it ends. A command that serves or works
goes on until it is told to stop.
-/
namespace Pipeworks

inductive ReadError where
  | file (e : FileError)
  | notText

namespace ReadError

def message : ReadError → String
  | file e => e.message
  | notText => "stream did not contain valid UTF-8"

end ReadError

namespace CommandLine

structure Host where
  fileAt : String → Except FileError ByteArray
  getVar : String → Option String
  accepts : String → Bool
  /-- Listens at a host and a port; the answer is the host and the port that it came to, or why it is not possible. -/
  listen : String → Nat → Except String (String × Nat)

structure Outcome where
  code : Nat
  out : String := ""
  err : String := ""
  /-- What is logged, line by line. -/
  log : List String := []
  /-- It goes on until it is told to stop, and then ends with its code. -/
  stays : Bool := false
deriving Inhabited

namespace Outcome

def failure (message : String) : Outcome := { code := 1, err := "Error: " ++ message ++ "\n" }

end Outcome

/-- What is printed of an error: its message, and what it wraps. -/
def explained (e : Error) : String :=
  let because (cause : String) : String := e.message ++ "\n\nCaused by:\n    " ++ cause
  match e with
  | .io t => because t
  | .json j => because j.message
  | e => e.message

def version : String := "flowgate 0.5.0"

def usage : String :=
  "Usage: flowgate [OPTIONS] <COMMAND>\n\nCommands:\n" ++
    "  serve     Serve the control API, event ingestion and observer stream\n" ++
    "  validate  Validate a stored pipeline\n" ++
    "  plan      Show the compiled execution plan of a stored pipeline\n"

def readText (h : Host) (path : String) : Except ReadError String := do
  let content ← (h.fileAt path).mapError .file
  match String.fromUTF8? content with
  | some s => return s
  | none => throw .notText

def settings (h : Host) : Option String → Except Error Config
  | none => .ok {}
  | some path =>
    match readText h path with
    | .ok s => Config.ofToml s
    | .error e => .error (.config s!"{path}: {e.message}")

/-- The graph of a stored pipeline; there must be one. -/
def storedGraph (h : Host) (id : PipelineId) (store : String) : Except Error Graph := do
  match ← GraphFile.fetched store id (h.fileAt (GraphFile.path store id)) with
  | some g => return g
  | none => throw (.other s!"pipeline {id} not found in {store}")

def lines (ls : List String) : String := String.join (ls.map (· ++ "\n"))

/-! ### Validate and plan -/

def validate (h : Host) (id : PipelineId) (store : String) : Except Error Outcome := do
  let g ← storedGraph h id store
  let r := g.validate (Probe.reachable h.accepts)
  let said := r.errors.map ("[ERROR] " ++ ·) ++ r.warnings.map ("[WARN] " ++ ·)
  return if r.valid then { code := 0, out := lines (said ++ ["Pipeline is valid"]) }
    else { code := 1, out := lines said }

def clusterLines (c : Cluster) : List String :=
  let bridge := if c.bridges then " (bridges)" else ""
  [s!"  #{c.index} broker={c.broker} group={c.group}{bridge}"] ++
    c.inputs.map (fun i => s!"    input  {i.id} <- {i.topic}") ++
    c.transformations.map (fun t => "    step   " ++ t.name.getD "(unnamed)") ++
    c.outputs.map fun o => s!"    output {o.id} -> {o.topic}@{o.broker}"

def planLines (g : Graph) (p : Plan) : List String :=
  [s!"Pipeline: {g.name} ({g.pipeline})", s!"Flows: {p.flows.length}"] ++
    p.flows.map (fun f => "  " ++ f.name) ++
    ["", s!"Clusters: {p.clusters.length}"] ++ p.clusters.flatMap clusterLines

def plan (h : Host) (id : PipelineId) (store : String) (json : Bool) : Except Error Outcome := do
  let g ← storedGraph h id store
  let p ← Plan.compile g
  return { code := 0, out := lines (if json then [p.json.pretty] else planLines g p) }

/-! ### Worker -/

/-- Does the job of a worker with brokers in memory, where nothing ever arrives: a cluster without inputs and a
producer with a limit come to an end, all others go on. -/
def work (spec : WorkerSpec) : Except Error Outcome := do
  let note := "worker uses a process-local in-memory broker"
  match spec.role with
  | .cluster c =>
    if c.inputs.isEmpty then return { code := 0, log := [note, "Cluster runner started", "Cluster runner stopped"] }
    else return { code := 0, log := [note, "Cluster runner started"], stays := true }
  | .producer p => do
    let _ ← Producer.check p.channels p.frequency
    if p.maxRecords.isSome then return { code := 0, log := [note, "Producer started", "Producer stopped"] }
    else return { code := 0, log := [note, "Producer started"], stays := true }

def worker (h : Host) : Except Error Outcome := do
  work (← WorkerSpec.ofEnvironment (h.getVar WorkerSpec.variableName))

/-! ### Serve -/

/-- The host and the port of an address to listen at. -/
def bindTarget (address : String) : Except String (String × Nat) :=
  match Probe.hostAndPort? address.toList with
  | none => .error "invalid socket address"
  | some (host, port) =>
    match Text.readUnsigned Probe.portBound port with
    | .ok n => .ok (String.ofList host, n)
    | .error _ => .error "invalid port value"

/-- Where workers on the same machine find a server that listens at a host: at the machine itself, if it listens
everywhere. -/
def localHost (host : String) : String := if host = "0.0.0.0" ∨ host = "[::]" then "127.0.0.1" else host

/-- Where workers send their events, unless said otherwise. -/
def localEndpoint (host : String) (port : Nat) : String :=
  "http://" ++ localHost host ++ ":" ++ toString port ++ "/stream/event"

def serve (h : Host) (bind store : String) (c : Config) : Outcome :=
  match (bindTarget bind).bind fun (host, port) => h.listen host port with
  | .error e => .failure e
  | .ok (host, port) =>
    let endpoint := c.endpoint.getD (localEndpoint host port)
    { code := 0, stays := true
      log := [s!"Starting supervisor store={store} endpoint={endpoint}",
        s!"listening on http://{host}:{port}"] }

/-! ### All commands -/

/-- Carries out a command. The settings are read first, whatever the command is. -/
def execute (h : Host) (i : Invocation) : Outcome :=
  let outcome : Except Error Outcome := do
    let c ← settings h i.config
    match i.command with
    | .serve bind store o => return serve h bind store (← c.override o)
    | .worker => worker h
    | .validate id store => validate h id store
    | .plan id store json => plan h id store json
  match outcome with
  | .ok o => o
  | .error e => .failure (explained e)

def run (h : Host) (args : List String) : Outcome :=
  match parse h.getVar args with
  | .ok i => execute h i
  | .error .version => { code := 0, out := lines [version] }
  | .error .help => { code := 0, out := usage }
  | .error .usage => { code := 2, err := usage }

/-- The files that the program reads with these arguments. -/
def filesRead (getVar : String → Option String) (args : List String) : List String :=
  match parse getVar args with
  | .error _ => []
  | .ok i =>
    i.config.toList ++ match i.command with
      | .validate id store => [GraphFile.path store id]
      | .plan id store _ => [GraphFile.path store id]
      | _ => []

end CommandLine

end Pipeworks
