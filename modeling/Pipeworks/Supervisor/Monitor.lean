import Pipeworks.Supervisor.Basic
/-!
The watch over a generation. At every poll its monitor looks for a process that ended without having been asked
to; the first one found fails the run, and the others are shut down. When the runtime is over, the producers are
shut down, then the workers, and every segment is reported as completed. A monitor holds the lock of the processes
from its finding to the end of the shutdown, and gives way to others only between two of its steps.
-/
namespace Pipeworks

namespace Monitor

/-- How a run is said to have failed by the end of a process. -/
def crashMessage (m : Member) (label : String) (status : ExitStatus) : String :=
  if m.isProducer then s!"Producer for segment #{m.segment + 1} died: {label} exited with {status.text}"
  else s!"Worker crashed at segment #{m.segment + 1}: {label} exited with {status.text}"

def crashEvent (run : PipelineId) (segment : Nat) (message : String) : Event :=
  Event.lifecycle run (some segment) Event.failed
    (.obj [("message", .str message), ("segment", Json.nat segment)])

def completionEvent (run : PipelineId) (segment : Nat) : Event :=
  Event.lifecycle run (some segment) Event.segmentCompleted (.obj [("segment", Json.nat segment)])

/-- Sleeps until the next poll, but not beyond the deadline. -/
def sleep (now : Moment) (interval : Duration) (deadline : Option Moment) : Monitor :=
  match Moment.later? now interval with
  | none => .broken
  | some wake => .sleeping (match deadline with | some d => min wake d | none => wake) deadline

def begin (now : Moment) (interval : Duration) : Option Duration → Monitor
  | none => sleep now interval none
  | some runtime =>
    match Moment.later? now runtime with
    | none => .broken
    | some deadline => sleep now interval (some deadline)

/-- The moment until which a monitor does nothing on its own. -/
def wake? (s : Supervisor) : Monitor → Option Moment
  | sleeping wake _ => some wake
  | failing _ _ t => t.wake? s
  | endingProducers t => t.wake? s
  | draining limit => some limit
  | endingWorkers t => t.wake? s
  | _ => none

end Monitor

namespace Supervisor

/-- Ends the monitor of a generation, which gives back the lock of the processes. -/
def endMonitor (s : Supervisor) (g : Nat) : Supervisor := (s.setHeld g false).setMonitor g .ended

/-- Goes on with a teardown that a monitor makes. -/
def monitorTeardown (s : Supervisor) (g : Nat) (t : Teardown) (stage : Teardown → Monitor)
    (finish : Supervisor → Supervisor) : Option Supervisor :=
  match t.next s with
  | .wait => none
  | .later t s => some (s.setMonitor g (stage t))
  | .finished s => some (finish s)

/-- Looks for a process that ended without having been asked to. -/
def checkForCrash (s : Supervisor) (g : Nat) (x : Generation) (deadline : Option Moment) : Supervisor :=
  let (found, processes) := Member.findAnswer (Subprocess.exitedUnexpectedly s.now) x.members s.processes
  let s := { s with processes }
  match found with
  | some (m, p, status) =>
    let message := Monitor.crashMessage m p.label status
    ((s.setRegistry (s.registry.fail x.pipeline message).2).setHeld g true).setMonitor g
      (.failing m.segment message (Teardown.ofMembers x.members))
  | none =>
    s.setMonitor g <|
      if deadline.any fun d => d ≤ s.now then .completing
      else Monitor.sleep s.now (s.config.pollInterval x.runtime) deadline

/-- Reports every worker of a generation as completed. -/
def reportCompletion (s : Supervisor) (x : Generation) : Supervisor :=
  (x.members.filter fun m => !m.isProducer).foldl
    (fun s m => (s.ingest (Monitor.completionEvent x.pipeline m.segment)).2) s

/-- One step of the monitor of a generation, if it can make one. Where it was cancelled at the moment at which it
would go on by itself, either may win: `timerFirst` tells which. -/
def stepMonitor (s : Supervisor) (g : Nat) (timerFirst : Bool := false) : Option Supervisor :=
  match s.generations[g]? with
  | none => none
  | some x =>
    match x.monitor with
    | .fresh => some (s.setMonitor g (.begin s.now (s.config.pollInterval x.runtime) x.runtime))
    | .sleeping wake deadline =>
      if x.cancelled ∧ ¬(timerFirst ∧ wake ≤ s.now) then some (s.setMonitor g .ended)
      else if wake ≤ s.now then some (s.setMonitor g (.checking deadline))
      else none
    | .checking deadline => if x.held then none else some (s.checkForCrash g x deadline)
    | .failing segment message t =>
      s.monitorTeardown g t (.failing segment message) fun s =>
        ((s.endMonitor g).ingest (Monitor.crashEvent x.pipeline segment message)).2
    | .completing =>
      if x.held then none
      else
        let producers := (x.members.filter (·.isProducer)).map (·.process)
        some ((s.setHeld g true).setMonitor g (.endingProducers { processes := producers }))
    | .endingProducers t =>
      s.monitorTeardown g t .endingProducers fun s =>
        s.setMonitor g (.draining (s.now + s.config.drainDelay.nanos))
    | .draining limit =>
      if x.cancelled ∧ ¬(timerFirst ∧ limit ≤ s.now) then some (s.endMonitor g)
      else if limit ≤ s.now then
        let workers := (x.members.filter fun m => !m.isProducer).map (·.process)
        some (s.setMonitor g (.endingWorkers { processes := workers }))
      else none
    | .endingWorkers t =>
      s.monitorTeardown g t .endingWorkers fun s => (s.endMonitor g).reportCompletion x
    | .ended => none
    | .broken => none

end Supervisor

end Pipeworks
