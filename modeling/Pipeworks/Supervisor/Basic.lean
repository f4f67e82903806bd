import Pipeworks.Supervisor.Report
import Pipeworks.Subprocess
import Pipeworks.Config
import Pipeworks.Run.Bus
import Pipeworks.Validation.Basic
import Pipeworks.Worker.Spec
/-!
The state of a supervisor. Every start of a pipeline makes a generation of processes with a monitor that watches
over them; a pipeline has at most one generation in the list of active ones. The processes of a generation and
the list of active ones are each behind a lock, which some holders keep while they wait.
-/
namespace Pipeworks

structure Member where
  process : Nat
  segment : Nat
  isProducer : Bool
deriving DecidableEq, Repr, Inhabited

namespace Member

/-- Asks the processes of some members in turn until one has an answer. The processes asked are changed as
asking changes them. -/
def findAnswer {α : Type} (ask : Subprocess → Option α × Subprocess) :
    List Member → List Subprocess → Option (Member × Subprocess × α) × List Subprocess
  | [], ps => (none, ps)
  | m :: ms, ps =>
    match ps[m.process]? with
    | none => findAnswer ask ms ps
    | some p =>
      match ask p with
      | (some a, p) => (some (m, p, a), ps.set m.process p)
      | (none, p) => findAnswer ask ms (ps.set m.process p)

def anyOf (ask : Subprocess → Bool × Subprocess) (ms : List Member) (ps : List Subprocess) : Bool × List Subprocess :=
  let (found, ps) := findAnswer (fun p => let (b, p) := ask p; (if b then some () else none, p)) ms ps
  (found.isSome, ps)

/-- The processes in the order in which they are shut down: the producers, then the workers. -/
def shutdownOrder (ms : List Member) : List Nat :=
  ((ms.filter (·.isProducer)) ++ (ms.filter fun m => !m.isProducer)).map (·.process)

end Member

/-- The shutdown of several processes, one after another. -/
structure Teardown where
  /-- The processes that are not gone yet, the one in work first. -/
  processes : List Nat
  current : Option Shutdown := none
deriving DecidableEq, Repr

/-- How far the watch over a generation has come. -/
inductive Monitor where
  | fresh
  /-- It sleeps, until it is woken or cancelled. -/
  | sleeping (wake : Moment) (deadline : Option Moment)
  /-- It is about to look for processes that died. -/
  | checking (deadline : Option Moment)
  /-- A process died; the others are shut down. -/
  | failing (segment : Nat) (message : String) (t : Teardown)
  | completing
  | endingProducers (t : Teardown)
  /-- The workers go on for a while without producers. -/
  | draining (limit : Moment)
  | endingWorkers (t : Teardown)
  | ended
  /-- It broke down, because the moment to wake at cannot be told. -/
  | broken
deriving DecidableEq, Repr, Inhabited

namespace Monitor

/-- A monitor that is over does nothing any more. -/
def isOver : Monitor → Bool
  | ended => true
  | broken => true
  | _ => false

end Monitor

/-- The processes of one start, and the watch over them. -/
structure Generation where
  pipeline : PipelineId
  members : List Member
  /-- After which time the run is complete. -/
  runtime : Option Duration
  startedAt : Moment
  monitor : Monitor := .fresh
  /-- Someone holds the lock of the processes. -/
  held : Bool := false
  cancelled : Bool := false
deriving DecidableEq, Repr, Inhabited

structure Supervisor where
  config : Config
  bus : Bus
  now : Moment := 0
  /-- All processes that were ever started, by number. -/
  processes : List Subprocess := []
  /-- All generations that were ever started, by number. -/
  generations : List Generation := []
  /-- The pipelines that are watched over, with the number of their generation. -/
  active : List (PipelineId × Nat) := []
  /-- Someone holds the lock of the active pipelines. -/
  activeHeld : Bool := false
  /-- The pipelines with a start under way. -/
  starting : List PipelineId := []
  /-- How many starts passed their validation. -/
  sequence : Nat := 0
  /-- The jobs for which a process was to be started, the first one first. -/
  launched : List WorkerSpec := []
deriving Inhabited

/-- What surrounds a supervisor. -/
structure Surroundings where
  /-- The graph of a pipeline, as it is stored. -/
  fetch : PipelineId → Except Error (Option Graph)
  reachable : String → Bool
  /-- What is run for the worker that is launched after so many others: there may be no command for it, and the
  program of the command may be missing. -/
  launch : Nat → WorkerSpec → Except Error (Except FileError Program)
  /-- The text of the time in the names of consumer groups. -/
  stamp : String

namespace Supervisor

def ofConfig (c : Config) : Supervisor :=
  { config := c, bus := { broadcast := { capacity := c.broadcastCapacity } } }

def registry (s : Supervisor) : Registry := s.bus.registry

def setRegistry (s : Supervisor) (r : Registry) : Supervisor := { s with bus := { s.bus with registry := r } }

def ingest (s : Supervisor) (e : Event) : Ingest × Supervisor :=
  let (answer, bus) := s.bus.ingest e
  (answer, { s with bus })

def publish (s : Supervisor) (e : Event) : Supervisor := { s with bus := s.bus.publish e }

/-- The number of the generation that is active for a pipeline. -/
def generation? (s : Supervisor) (id : PipelineId) : Option Nat := (s.active.find? (·.1 = id)).map (·.2)

/-- The processes of a pipeline are not watched over any more. -/
def deactivate (s : Supervisor) (id : PipelineId) : Supervisor :=
  { s with active := s.active.filter (·.1 ≠ id) }

def modifyGeneration (s : Supervisor) (g : Nat) (f : Generation → Generation) : Supervisor :=
  { s with generations := s.generations.modify g f }

def setMonitor (s : Supervisor) (g : Nat) (m : Monitor) : Supervisor :=
  s.modifyGeneration g fun x => { x with monitor := m }

/-- Takes or gives back the lock of the processes of a generation. -/
def setHeld (s : Supervisor) (g : Nat) (held : Bool) : Supervisor :=
  s.modifyGeneration g fun x => { x with held }

def cancel (s : Supervisor) (g : Nat) : Supervisor := s.modifyGeneration g fun x => { x with cancelled := true }

def signal (s : Supervisor) (process signal : Nat) : Supervisor :=
  { s with processes := s.processes.modify process fun p => p.receive s.now signal }

/-! ### Pipelines -/

def fetch (env : Surroundings) (id : PipelineId) : Except Error Graph := do
  match ← env.fetch id with
  | some g => return g
  | none => throw (.pipelineNotFound id)

def validate (env : Surroundings) (id : PipelineId) : Except Error Report := do
  let g ← fetch env id
  return g.validate env.reachable

def plan (env : Surroundings) (id : PipelineId) : Except Error Plan := do
  let g ← fetch env id
  let _ ← g.requireValid env.reachable
  Plan.compile g

/-! ### Processes -/

/-- A job with the settings of the supervisor. -/
def configured (c : Config) (spec : WorkerSpec) : WorkerSpec :=
  { spec with
    endpoint := c.endpoint
    streamEvents := c.streamEvents
    budget := c.stepBudget
    queueCapacity := c.queueCapacity }

/-- The job of producing records for an input. Its segment is the cluster on the broker of the input. -/
def producerSpec (id : PipelineId) (p : Plan) (o : ProducerOptions) (input : Endpoint) : WorkerSpec :=
  .ofProducer id ((p.clusters.findIdx? (·.broker = input.broker)).getD 0)
    ⟨input.broker, input.topic, o.channels, o.frequency, none⟩

/-- The jobs of a run: one for each cluster, then one for each input if producers are wanted. -/
def specs (c : Config) (id : PipelineId) (p : Plan) (inputs : List Endpoint)
    (producer : Option ProducerOptions) : List WorkerSpec :=
  let producers := match producer with
    | some o => inputs.map (producerSpec id p o)
    | none => []
  (p.clusters.map (WorkerSpec.ofCluster id) ++ producers).map (configured c)

def spawn (env : Surroundings) (spec : WorkerSpec) (s : Supervisor) : Except Error Member × Supervisor :=
  let command := env.launch s.launched.length spec
  let s := { s with launched := s.launched ++ [spec] }
  match command.bind (Subprocess.launch spec.label s.now) with
  | .error e => (.error e, s)
  | .ok p => (.ok ⟨s.processes.length, spec.segment, spec.isProducer⟩, { s with processes := s.processes ++ [p] })

/-- Starts the processes of some jobs in order, up to the first one that cannot be started. The members that were
started come with the error, if there is one. -/
def spawnAll (env : Surroundings) : List WorkerSpec → List Member → Supervisor →
    Option Error × List Member × Supervisor
  | [], ms, s => (none, ms, s)
  | spec :: specs, ms, s =>
    match spawn env spec s with
    | (.ok m, s) => spawnAll env specs (ms ++ [m]) s
    | (.error e, s) => (some e, ms, s)

end Supervisor

namespace Teardown

/-- Shuts down the processes of some members, the producers first. -/
def ofMembers (ms : List Member) : Teardown := { processes := Member.shutdownOrder ms }

/-- What comes next: it is over, or it goes on; nothing, as long as a process takes its time. -/
inductive Next where
  | finished (s : Supervisor)
  | later (t : Teardown) (s : Supervisor)
  | wait

def next (t : Teardown) (s : Supervisor) : Next :=
  match t.processes with
  | [] => .finished s
  | i :: rest =>
    match s.processes[i]? with
    | none => .later ⟨rest, none⟩ s
    | some p =>
      let put (p : Subprocess) : Supervisor := { s with processes := s.processes.set i p }
      match t.current with
      | none =>
        let (stage, p) := Shutdown.start s.config.gracePeriod s.now p
        .later ⟨i :: rest, some stage⟩ (put p)
      | some stage =>
        match stage.next s.config.gracePeriod s.now p with
        | .done _ p => .later ⟨rest, none⟩ (put p)
        | .later stage p => .later ⟨i :: rest, some stage⟩ (put p)
        | .wait => .wait

/-- The moment until which nothing happens in a teardown. -/
def wake? (t : Teardown) (s : Supervisor) : Option Moment :=
  match t.processes, t.current with
  | i :: _, some stage => (s.processes[i]?).map (stage.wake s.now)
  | _, _ => none

end Teardown

end Pipeworks
