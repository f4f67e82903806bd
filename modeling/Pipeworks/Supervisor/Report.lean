import Pipeworks.Run.Status
/-!
What a supervisor says about a run that it started, and about one that it is asked for.
-/
namespace Pipeworks

structure StartReport where
  pipeline : PipelineId
  segments : Nat
  producers : Nat
  processes : List Nat
  warnings : List String
deriving DecidableEq, Repr, Inhabited

namespace StartReport

def json (r : StartReport) : Json :=
  .obj [("pipeline_id", .int r.pipeline), ("status", ControlStatus.started.json),
    ("message", .str s!"Pipeline started with {r.segments} segment(s)"), ("segments", Json.nat r.segments),
    ("producers", Json.nat r.producers), ("pids", .arr (r.processes.map Json.nat)),
    ("warnings", Json.strs r.warnings)]

end StartReport

/-- Whether the processes of a run are alive, and what is known of the run. -/
structure StatusReport where
  pipeline : PipelineId
  status : ProcessStatus
  message : String
  run : Option RunState
  processes : List Nat := []
  /-- How long ago the processes were started, if they are watched over. -/
  uptime : Option Duration := none
deriving DecidableEq, Repr, Inhabited

namespace StatusReport

def json (r : StatusReport) : Json :=
  .obj <| Json.present [("pipeline_id", some (.int r.pipeline)), ("status", some r.status.json),
    ("message", some (.str r.message)), ("run", r.run.map RunState.json),
    ("pids", some (.arr (r.processes.map Json.nat))),
    ("uptime_secs", r.uptime.map fun d => Json.ofFloat (Float.ofNat d.nanos / 1000000000.0))]

end StatusReport

end Pipeworks
