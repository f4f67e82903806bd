import Pipeworks.Worker.Spec
import Pipeworks.Worker.Runner
/-!
Workers: a worker does what its description says, announces the start of a cluster, and reports the error that
ends it, if any.
-/
namespace Pipeworks.Worker

variable {σ κ α : Type}

def started (s : WorkerSpec) (c : Cluster) : Event :=
  Event.lifecycle s.pipeline (some s.segment) Event.segmentStarted
    (.obj [("broker", .str c.broker), ("inputs", Json.strs (c.inputs.map (·.topic))),
      ("outputs", Json.strs (c.outputs.map (·.topic)))])

def failed (s : WorkerSpec) (e : Error) : Event :=
  Event.lifecycle s.pipeline (some s.segment) Event.failed
    (.obj [("message", .str s!"Worker crashed at segment #{s.segment + 1}: {e.message}"),
      ("segment", Json.nat s.segment)])

/-- Work whose failure is reported. -/
def reporting (s : WorkerSpec) (work : Work σ κ α) : Work σ κ α :=
  tryCatch work fun e => do
    Work.note (.emitted (failed s e))
    throw e

def runner (s : WorkerSpec) (c : Cluster) : Runner := Runner.ofCluster s.pipeline c s.budget s.streamEvents

/-- Connects a worker of a cluster to its inputs. -/
def attach (link : Link σ κ) (s : WorkerSpec) (c : Cluster) (r : Runner) : Work σ κ κ :=
  reporting s do
    Work.note (.emitted (started s c))
    r.attach link

/-- Handles what arrives at a worker of a cluster. -/
def accept (link : Link σ κ) (s : WorkerSpec) (r : Runner) (home : κ) (a : Arrival) : Work σ κ Unit :=
  reporting s (r.accept link home a)

/-- The whole work of a worker until it is told to stop: a cluster handles what arrives, a producer has time for
a number of records. -/
def run (link : Link σ κ) (s : WorkerSpec) (arrivals : List Arrival) (ticks : Nat) : Work σ κ Unit :=
  reporting s <|
    match s.role with
    | .producer p => Producer.run link p ticks
    | .cluster c => do
      Work.note (.emitted (started s c))
      (runner s c).run link arrivals

end Pipeworks.Worker
