import Pipeworks.Supervisor.Call
/-!
Calls on threads of their own. Between two points where a call gives way it takes hold of several things that all
calls share, one after another, and another thread may come in between. Here a start and an abort stop at each of them:
a start takes the number of its run, forgets the last record and makes a new one, starts one process, enters its
generation and gives back its mark, each in a step of its own. What a step does is what the whole call does there.
-/
namespace Pipeworks

/-- A run that is to be launched. -/
structure Launch where
  id : PipelineId
  options : StartOptions
  graph : Graph
  warnings : List String
  plan : Plan

/-- How far a launch has come. -/
inductive LaunchStage where
  /-- It is about to take the number of the run. -/
  | numbering
  /-- It is about to forget the record of the last run. -/
  | forgetting
  | recording
  /-- These jobs are left to be started, and these members were. -/
  | spawning (specs : List WorkerSpec) (members : List Member)

/-- How a start ends. -/
inductive Outcome where
  /-- It was refused before it launched anything. -/
  | refused (e : Error)
  /-- A process could not be started. -/
  | failed (e : Error)
  | entered (r : StartReport)

namespace Outcome

def result : Outcome → Except Error StartReport
  | refused e => .error e
  | failed e => .error e
  | entered r => .ok r

end Outcome

/-- Where a thread is in its call. -/
inductive Thread where
  /-- It stands where the call gives way to others. -/
  | calling (c : Call)
  | launching (l : Launch) (stage : LaunchStage)
  /-- What a start had started is gone, and the record of the run is to say so. -/
  | failing (id : PipelineId) (e : Error)
  /-- A start is about to give back its mark. -/
  | leaving (id : PipelineId) (o : Outcome)
  /-- An abort found no active generation, and is about to look for a record. -/
  | doubting (id : PipelineId) (moved : Bool)
  /-- An abort is about to tell what came of it. -/
  | concluding (id : PipelineId) (moved : Bool)
  | answered (a : Answer)

namespace Thread

/-- A step that is a whole one of its call. -/
def ofNext : Call.Next → Option (Thread × Supervisor)
  | .answer a s => some (answered a, s)
  | .later c s => some (calling c, s)
  | .wait => none

def refuse (s : Supervisor) (id : PipelineId) (e : Error) : Thread × Supervisor := (leaving id (.refused e), s)

def markStarting (s : Supervisor) (id : PipelineId) (o : StartOptions) : Thread × Supervisor :=
  if id ∈ s.starting then (answered (.started (.error (.alreadyRunning id))), s)
  else
    let s := { s with starting := s.starting ++ [id] }
    match o.producer.map fun p => Producer.check p.channels p.frequency with
    | some (.error e) => refuse s id e
    | _ => (calling (.start id o .marked), s)

def inspect (s : Supervisor) (id : PipelineId) (o : StartOptions) (g : Nat) : Thread × Supervisor :=
  let (alive, s) := s.anyAlive g
  let s := { s with activeHeld := false }
  if alive then refuse s id (.alreadyRunning id)
  else (calling (.start id o .fetching), (s.deactivate id).cancel g)

def validate (env : Surroundings) (s : Supervisor) (id : PipelineId) (o : StartOptions) (graph : Graph) :
    Thread × Supervisor :=
  match graph.requireValid env.reachable with
  | .error e => refuse s id e
  | .ok report =>
    match Plan.compile graph with
    | .error e => refuse s id e
    | .ok plan => (launching ⟨id, o, graph, report.warnings, plan⟩ .numbering, s)

def stepStart (env : Surroundings) (s : Supervisor) (id : PipelineId) (o : StartOptions) :
    StartStage → Option (Thread × Supervisor)
  | .asked => some (markStarting s id o)
  | .marked => ofNext (s.stepStart env id o .marked)
  | .inspecting g => if (s.generations[g]?).any (·.held) then none else some (inspect s id o g)
  | .fetching =>
    match Supervisor.fetch env id with
    | .error e => some (refuse s id e)
    | .ok graph => some (calling (.start id o (.validating graph)), s)
  | .validating graph => some (validate env s id o graph)
  | .unwinding t e =>
    match t.next s with
    | .wait => none
    | .later t s => some (calling (.start id o (.unwinding t e)), s)
    | .finished s => some (failing id e, s)
  | .enlisting g r =>
    if s.activeHeld then none
    else
      let s := (s.modifyGeneration g fun x => { x with startedAt := s.now }).deactivate id
      some (leaving id (.entered r), { s with active := s.active ++ [(id, g)] })

/-- Enters a generation whose processes were all started. -/
def enrol (s : Supervisor) (l : Launch) (members : List Member) : Thread × Supervisor :=
  let report : StartReport :=
    { pipeline := l.id, segments := l.plan.clusters.length, producers := (members.filter (·.isProducer)).length
      processes := members.map (·.process), warnings := l.warnings }
  let generation : Generation :=
    { pipeline := l.id, members, runtime := l.options.runtime, startedAt := s.now }
  (calling (.start l.id l.options (.enlisting s.generations.length report)),
    { s with generations := s.generations ++ [generation] })

def stepLaunch (env : Surroundings) (s : Supervisor) (l : Launch) : LaunchStage → Thread × Supervisor
  | .numbering =>
    let plan := l.plan.assignGroups s.config.groupPrefix (env.stamp ++ "-" ++ toString s.sequence)
    (launching { l with plan } .forgetting, { s with sequence := s.sequence + 1 })
  | .forgetting => (launching l .recording, s.setRegistry (s.registry.reset l.id))
  | .recording =>
    (launching l (.spawning (Supervisor.specs s.config l.id l.plan l.graph.inputs l.options.producer) []),
      s.setRegistry (s.registry.init l.id l.plan.clusters.length))
  | .spawning (spec :: specs) members =>
    match s.spawn env spec with
    | (.ok m, s) => (launching l (.spawning specs (members ++ [m])), s)
    | (.error e, s) => (calling (.start l.id l.options (.unwinding (Teardown.ofMembers members) e)), s)
  | .spawning [] members => enrol s l members

def stepAbort (s : Supervisor) (id : PipelineId) : AbortStage → Option (Thread × Supervisor)
  | .asked => ofNext (s.stepAbort id .asked)
  | .marked moved =>
    if ¬s.activeHeld ∧ s.generation? id = none then some (doubting id moved, s)
    else ofNext (s.stepAbort id (.marked moved))
  | .ending moved g t =>
    match s.stepTakedown g t with
    | none => none
    | some (some t, s) => some (calling (.abort id (.ending moved g t)), s)
    | some (none, s) => some (concluding id moved, s)

/-- One step of a thread, if it need not wait. -/
def step (env : Surroundings) (s : Supervisor) : Thread → Option (Thread × Supervisor)
  | calling (.start id o stage) => stepStart env s id o stage
  | calling (.abort id stage) => stepAbort s id stage
  | calling c => ofNext (s.step env c)
  | launching l stage => some (stepLaunch env s l stage)
  | failing id e =>
    some (leaving id (.failed e),
      s.setRegistry (s.registry.fail id ("Failed to start pipeline: " ++ e.message)).2)
  | leaving id o => some (answered (.started o.result), s.unmark id)
  | doubting id moved =>
    match s.registry.get? id with
    | none => some (answered (.control ⟨id, .notFound, s!"No run found for pipeline {id}"⟩), s)
    | some _ => some (concluding id moved, s)
  | concluding id moved =>
    let (a, s) := s.concludeAbort id moved
    some (answered a, s)
  | answered _ => none

end Thread

end Pipeworks
