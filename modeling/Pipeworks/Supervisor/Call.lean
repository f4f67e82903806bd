import Pipeworks.Supervisor.Monitor
/-!
The calls to a supervisor as machines. A stage of a call stands where it gives way to others: it waits for a lock,
for the store, for brokers, for a monitor or for a process. A step takes a call from one stage to the next and
changes the state of the supervisor at once, so that every interleaving of calls and monitors is an order of
steps.
-/
namespace Pipeworks

/-- How far the end of a generation has come. Its monitor was cancelled. -/
inductive Takedown where
  /-- It waits for the monitor to end. -/
  | joining
  /-- It waits for the lock of the processes. -/
  | claiming
  | stopping (t : Teardown)
deriving DecidableEq, Repr

inductive StartStage where
  | asked
  /-- The pipeline is marked as starting; the call waits for the active pipelines. -/
  | marked
  /-- It holds the active pipelines and waits for the processes of the generation that is active. -/
  | inspecting (g : Nat)
  | fetching
  | validating (graph : Graph)
  /-- A process could not be started; the others are shut down. -/
  | unwinding (t : Teardown) (e : Error)
  /-- All processes were started; the call waits for the active pipelines. -/
  | enlisting (g : Nat) (r : StartReport)

inductive StopStage where
  | asked
  | ending (g : Nat) (t : Takedown)
deriving DecidableEq, Repr

inductive AbortStage where
  | asked
  /-- The run was aborted, or had ended before; the call waits for the active pipelines. -/
  | marked (moved : Bool)
  | ending (moved : Bool) (g : Nat) (t : Takedown)
deriving DecidableEq, Repr

inductive ShutdownStage where
  | asked
  /-- The first of these generations is being ended. -/
  | ending (runs : List (PipelineId × Nat)) (t : Takedown)
deriving DecidableEq, Repr

inductive Call where
  | start (id : PipelineId) (options : StartOptions) (stage : StartStage)
  | stop (id : PipelineId) (stage : StopStage)
  | abort (id : PipelineId) (stage : AbortStage)
  /-- The state of the run is read before the call waits for the active pipelines. -/
  | status (id : PipelineId) (run : Option (Option RunState))
  | shutdownAll (stage : ShutdownStage)

inductive Answer where
  | started (r : Except Error StartReport)
  | control (r : ControlResponse)
  | status (r : StatusReport)
  | done

/-- What comes next in a call: its answer, or another stage; nothing, as long as it has to wait. -/
inductive Call.Next where
  | answer (a : Answer) (s : Supervisor)
  | later (c : Call) (s : Supervisor)
  | wait

namespace Supervisor

/-! ### Start -/

def unmark (s : Supervisor) (id : PipelineId) : Supervisor := { s with starting := s.starting.filter (· ≠ id) }

def refuse (s : Supervisor) (id : PipelineId) (e : Error) : Call.Next := .answer (.started (.error e)) (s.unmark id)

/-- Marks a pipeline as starting, unless it is, and checks the options. -/
def markStarting (s : Supervisor) (id : PipelineId) (o : StartOptions) : Call.Next :=
  if id ∈ s.starting then .answer (.started (.error (.alreadyRunning id))) s
  else
    let s := { s with starting := s.starting ++ [id] }
    match o.producer.map fun p => Producer.check p.channels p.frequency with
    | some (.error e) => s.refuse id e
    | _ => .later (.start id o .marked) s

def anyAlive (s : Supervisor) (g : Nat) : Bool × Supervisor :=
  match s.generations[g]? with
  | none => (false, s)
  | some x =>
    let (alive, processes) := Member.anyOf (Subprocess.isAlive s.now) x.members s.processes
    (alive, { s with processes })

/-- Refuses to start over processes that are alive; processes that all died are not watched over any more. -/
def inspect (s : Supervisor) (id : PipelineId) (o : StartOptions) (g : Nat) : Call.Next :=
  let (alive, s) := s.anyAlive g
  let s := { s with activeHeld := false }
  if alive then s.refuse id (.alreadyRunning id)
  else .later (.start id o .fetching) ((s.deactivate id).cancel g)

def launch (env : Surroundings) (s : Supervisor) (id : PipelineId) (o : StartOptions) (graph : Graph)
    (warnings : List String) (p : Plan) : Call.Next :=
  let p := p.assignGroups s.config.groupPrefix (env.stamp ++ "-" ++ toString s.sequence)
  let s := { s with sequence := s.sequence + 1 }
  let segments := p.clusters.length
  let s := s.setRegistry ((s.registry.reset id).init id segments)
  match spawnAll env (specs s.config id p graph.inputs o.producer) [] s with
  | (some e, members, s) => .later (.start id o (.unwinding (Teardown.ofMembers members) e)) s
  | (none, members, s) =>
    let report : StartReport :=
      { pipeline := id, segments, producers := (members.filter (·.isProducer)).length
        processes := members.map (·.process), warnings }
    let generation : Generation := { pipeline := id, members, runtime := o.runtime, startedAt := s.now }
    .later (.start id o (.enlisting s.generations.length report))
      { s with generations := s.generations ++ [generation] }

def validateAndLaunch (env : Surroundings) (s : Supervisor) (id : PipelineId) (o : StartOptions)
    (graph : Graph) : Call.Next :=
  match graph.requireValid env.reachable with
  | .error e => s.refuse id e
  | .ok report =>
    match Plan.compile graph with
    | .error e => s.refuse id e
    | .ok p => launch env s id o graph report.warnings p

def stepStart (env : Surroundings) (s : Supervisor) (id : PipelineId) (o : StartOptions) :
    StartStage → Call.Next
  | .asked => s.markStarting id o
  | .marked =>
    if s.activeHeld then .wait
    else
      match s.generation? id with
      | none => .later (.start id o .fetching) s
      | some g => .later (.start id o (.inspecting g)) { s with activeHeld := true }
  | .inspecting g =>
    match s.generations[g]? with
    | some x => if x.held then .wait else s.inspect id o g
    | none => s.inspect id o g
  | .fetching =>
    match fetch env id with
    | .error e => s.refuse id e
    | .ok graph => .later (.start id o (.validating graph)) s
  | .validating graph => validateAndLaunch env s id o graph
  | .unwinding t e =>
    match t.next s with
    | .wait => .wait
    | .later t s => .later (.start id o (.unwinding t e)) s
    | .finished s => (s.setRegistry (s.registry.fail id ("Failed to start pipeline: " ++ e.message)).2).refuse id e
  | .enlisting g r =>
    if s.activeHeld then .wait
    else
      let s := s.modifyGeneration g fun x => { x with startedAt := s.now }
      let s := s.deactivate id
      .answer (.started (.ok r)) ({ s with active := s.active ++ [(id, g)] }.unmark id)

/-! ### Stop and abort -/

/-- One step of the end of a generation, if it can make one; it is over when there is no stage left. -/
def stepTakedown (s : Supervisor) (g : Nat) (t : Takedown) : Option (Option Takedown × Supervisor) :=
  match s.generations[g]? with
  | none => some (none, s)
  | some x =>
    match t with
    | .joining => if x.monitor.isOver then some (some .claiming, s) else none
    | .claiming =>
      if x.held then none else some (some (.stopping (Teardown.ofMembers x.members)), s.setHeld g true)
    | .stopping t =>
      match t.next s with
      | .wait => none
      | .later t s => some (some (.stopping t), s)
      | .finished s => some (none, s.setHeld g false)

/-- Ends the run of a pipeline that was stopped. -/
def concludeStop (s : Supervisor) (id : PipelineId) : Answer × Supervisor :=
  let message := "Pipeline stopped"
  let (moved, registry) := s.registry.abort id message
  let s := s.setRegistry registry
  (.control ⟨id, .stopped, message⟩,
    if moved then s.publish (Event.announcement id Event.stopped message) else s)

def stepStop (s : Supervisor) (id : PipelineId) : StopStage → Call.Next
  | .asked =>
    if s.activeHeld then .wait
    else
      match s.generation? id with
      | none => .answer (.control ⟨id, .stopped, "Pipeline is not running"⟩) s
      | some g => .later (.stop id (.ending g .joining)) ((s.deactivate id).cancel g)
  | .ending g t =>
    match s.stepTakedown g t with
    | none => .wait
    | some (some t, s) => .later (.stop id (.ending g t)) s
    | some (none, s) =>
      let (a, s) := s.concludeStop id
      .answer a s

/-- What an abort of a run that had ended is told. -/
def alreadyEnded (id : PipelineId) (run : Option RunState) : ControlResponse :=
  match run.map RunState.status with
  | some .failed => ⟨id, .failed, "Pipeline already failed"⟩
  | some .aborted => ⟨id, .aborted, "Pipeline already aborted"⟩
  | _ => ⟨id, .stopped, "Pipeline already finished"⟩

/-- Announces an abort that ended a run. -/
def concludeAbort (s : Supervisor) (id : PipelineId) (moved : Bool) : Answer × Supervisor :=
  let message := "Pipeline aborted"
  if moved then
    (.control ⟨id, .aborted, message⟩, s.publish (Event.announcement id Event.aborted message))
  else (.control (alreadyEnded id (s.registry.get? id)), s)

def stepAbort (s : Supervisor) (id : PipelineId) : AbortStage → Call.Next
  | .asked =>
    let (moved, registry) := s.registry.abort id
    .later (.abort id (.marked moved)) (s.setRegistry registry)
  | .marked moved =>
    if s.activeHeld then .wait
    else
      match s.generation? id with
      | some g => .later (.abort id (.ending moved g .joining)) ((s.deactivate id).cancel g)
      | none =>
        match s.registry.get? id with
        | none => .answer (.control ⟨id, .notFound, s!"No run found for pipeline {id}"⟩) s
        | some _ =>
          let (a, s) := s.concludeAbort id moved
          .answer a s
  | .ending moved g t =>
    match s.stepTakedown g t with
    | none => .wait
    | some (some t, s) => .later (.abort id (.ending moved g t)) s
    | some (none, s) =>
      let (a, s) := s.concludeAbort id moved
      .answer a s

/-- All runs are ended one after another. In what order is not settled, since their table has none; here it is the order
in which they were entered. -/
def stepShutdownAll (s : Supervisor) : ShutdownStage → Call.Next
  | .asked =>
    if s.activeHeld then .wait
    else
      match s.active with
      | [] => .answer .done s
      | (id, g) :: rest =>
        .later (.shutdownAll (.ending ((id, g) :: rest) .joining)) ({ s with active := [] }.cancel g)
  | .ending [] _ => .answer .done s
  | .ending ((id, g) :: rest) t =>
    match s.stepTakedown g t with
    | none => .wait
    | some (some t, s) => .later (.shutdownAll (.ending ((id, g) :: rest) t)) s
    | some (none, s) =>
      let s := s.setRegistry (s.registry.abort id "Supervisor shut down").2
      match rest with
      | [] => .answer .done s
      | (_, g) :: _ => .later (.shutdownAll (.ending rest .joining)) (s.cancel g)

/-! ### Status -/

/-- The status of processes that are being shut down. -/
def statusWhileHeld (run : Option RunState) : ProcessStatus :=
  match run.map RunState.status with
  | some .failed => .failed
  | some status => if status.isTerminal then .stopped else .running
  | none => .running

/-- The status of the processes of a generation. -/
def statusOf (s : Supervisor) (x : Generation) (hasFailed : Bool) : ProcessStatus × Supervisor :=
  if hasFailed then (.failed, s)
  else
    let (failed, processes) := Member.anyOf (Subprocess.failed s.now) x.members s.processes
    if failed then (.failed, { s with processes })
    else
      let (alive, processes) := Member.anyOf (Subprocess.isAlive s.now) x.members processes
      (if alive then .running else .stopped, { s with processes })

/-- What is known of a pipeline, `run` being the state of its run. -/
def report (s : Supervisor) (id : PipelineId) (run : Option RunState) : StatusReport × Supervisor :=
  let message := (run.map (·.message)).getD "Pipeline is not running"
  let hasFailed := run.any (·.status = .failed)
  match s.generation? id with
  | none =>
    if id ∈ s.starting then
      ({ pipeline := id, status := .stopped, message := "Pipeline is starting", run }, s)
    else ({ pipeline := id, status := if hasFailed then .failed else .stopped, message, run }, s)
  | some g =>
    match s.generations[g]? with
    | none => ({ pipeline := id, status := .stopped, message, run }, s)
    | some x =>
      let uptime : Option Duration := some ⟨s.now - x.startedAt⟩
      if x.held then ({ pipeline := id, status := statusWhileHeld run, message, run, uptime }, s)
      else
        let (status, s) := s.statusOf x hasFailed
        ({ pipeline := id, status, message, run, processes := x.members.map (·.process), uptime }, s)

def stepStatus (s : Supervisor) (id : PipelineId) : Option (Option RunState) → Call.Next
  | none => .later (.status id (some (s.registry.get? id))) s
  | some run =>
    if s.activeHeld then .wait
    else
      let (r, s) := s.report id run
      .answer (.status r) s

/-! ### Calls -/

def step (env : Surroundings) (s : Supervisor) : Call → Call.Next
  | .start id o stage => stepStart env s id o stage
  | .stop id stage => s.stepStop id stage
  | .abort id stage => s.stepAbort id stage
  | .status id run => s.stepStatus id run
  | .shutdownAll stage => s.stepShutdownAll stage

/-- Kills the processes of some members, as happens to those that nobody keeps any more. -/
def killAll (s : Supervisor) (processes : List Nat) : Supervisor :=
  { s with processes := processes.foldl (fun ps i => ps.modify i (Subprocess.receive s.now Signal.kill)) s.processes }

/-- A start is given up by its caller at the stage that it has come to: its locks and its mark are given back,
and processes that no monitor shares are killed. -/
def abandonStart (s : Supervisor) (id : PipelineId) : StartStage → Supervisor
  | .asked => s
  | .inspecting _ => { s with activeHeld := false }.unmark id
  | .unwinding t _ => (s.killAll t.processes).unmark id
  | _ => s.unmark id

end Supervisor

namespace Call

def startOf (id : PipelineId) (o : StartOptions) : Call := start id o .asked
def stopOf (id : PipelineId) : Call := stop id .asked
def abortOf (id : PipelineId) : Call := abort id .asked
def statusOf (id : PipelineId) : Call := status id none
def shutdown : Call := shutdownAll .asked

/-- The moment until which a call does nothing on its own. -/
def wake? (s : Supervisor) : Call → Option Moment
  | start _ _ (.unwinding t _) => t.wake? s
  | stop _ (.ending _ (.stopping t)) => t.wake? s
  | abort _ (.ending _ _ (.stopping t)) => t.wake? s
  | shutdownAll (.ending _ (.stopping t)) => t.wake? s
  | _ => none

end Call

end Pipeworks
