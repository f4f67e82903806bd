import Pipeworks.Run.Registry
/-!
What may be asked of a run. A transition changes what is kept of one run, or leaves it as it is, and tells whether it
moved the run.
-/
namespace Pipeworks

/-- What may be asked of a run that is known. -/
inductive Transition where
  | markRunning
  | countSegment
  | fail (message : String)
  | abort (message : String)
deriving DecidableEq, Repr

namespace Transition

/-- Whether a run ends when this moves it. -/
def ends : Transition → Bool
  | markRunning => false
  | _ => true

/-- The status and the message of a run that this moved. -/
def outcome : Transition → RunStatus × String
  | markRunning => (.running, "Pipeline running")
  | countSegment => (.completed, "Pipeline completed")
  | fail message => (.failed, message)
  | abort message => (.aborted, message)

/-- What it makes of a run, and whether it moved it; nothing for a run that it leaves alone. -/
def change : Transition → Registry.Entry → Option (Registry.Entry × Bool)
  | markRunning => Registry.Entry.markRunning
  | countSegment => Registry.Entry.countSegment
  | fail message => (·.fail message)
  | abort message => (·.abort message)

/-- Whether it moves a run in a state, and the state after it. -/
def act (t : Transition) (s : RunState) : Bool × RunState :=
  ((t.change (.of s)).any (·.2), ((t.change (.of s)).map (·.1.state)).getD s)

/-- The same for a run in the registry. -/
def call (t : Transition) (r : Registry) (id : PipelineId) : Bool × Registry :=
  match t with
  | markRunning => r.markRunning id
  | countSegment => r.segmentCompleted id
  | fail message => r.fail id message
  | abort message => r.abort id message

end Transition

end Pipeworks
