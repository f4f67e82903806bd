import Pipeworks.Keyed
import Pipeworks.Run.Status
/-!
The states of all runs. A run moves from starting to running and from either to a terminal status; the first
terminal status stays, with its message, until the run is forgotten.
-/
namespace Pipeworks

namespace Registry

/-- What is kept of a run. -/
structure Entry where
  state : RunState
  /-- The completion of the run was told. -/
  completionEmitted : Bool
  emitted_iff : completionEmitted = true ↔ state.status = .completed
deriving DecidableEq, Repr

namespace Entry

/-- What is kept of a run in a state: its completion was told exactly when it is completed. -/
def of (state : RunState) : Entry := ⟨state, decide (state.status = .completed), by simp⟩

theorem of_state (e : Entry) : of e.state = e := by
  obtain ⟨state, completionEmitted, hemitted⟩ := e
  rw [of, Entry.mk.injEq]
  exact ⟨rfl, Bool.eq_iff_iff.mpr (by rw [decide_eq_true_eq, hemitted])⟩

def initial (pipeline : PipelineId) (segments : Nat) : Entry :=
  ⟨.initial pipeline segments, false, by simp [RunState.initial]⟩

instance : Inhabited Entry := ⟨initial default default⟩

/-- Gives a run another status. Neither the old one nor the new one is that of a completed run. -/
def move (e : Entry) (status : RunStatus) (message : String) (hold : e.state.status ≠ .completed)
    (hnew : status ≠ .completed) : Entry :=
  ⟨{ e.state with status, message }, e.completionEmitted, e.emitted_iff.trans (iff_of_false hold hnew)⟩

/-- A run that was starting is running. -/
def markRunning (e : Entry) : Option (Entry × Bool) :=
  if h : e.state.status = .starting then
    some (e.move .running "Pipeline running" (h ▸ by decide) (by decide), true)
  else none

/-- Ends a run that has not ended yet and is not completed by this. -/
def finish (e : Entry) (status : RunStatus) (message : String) (hstatus : status ≠ .completed) :
    Option (Entry × Bool) :=
  if h : e.state.status.isTerminal then none
  else some (e.move status message (fun hcompleted => h (hcompleted ▸ rfl)) hstatus, true)

def fail (e : Entry) (message : String) : Option (Entry × Bool) := e.finish .failed message (by decide)

def abort (e : Entry) (message : String) : Option (Entry × Bool) := e.finish .aborted message (by decide)

/-- Counts a finished segment of a run that has not ended yet; the last one completes the run, if its completion
was not told before. The flag tells whether it did. -/
def countSegment (e : Entry) : Option (Entry × Bool) :=
  if e.state.status.isTerminal then none
  else
    let state := { e.state with completedSegments := e.state.completedSegments + 1 }
    if state.totalSegments ≤ state.completedSegments ∧ e.completionEmitted = false then
      some (⟨{ state with status := .completed, message := "Pipeline completed" }, true, by simp⟩, true)
    else some (⟨state, e.completionEmitted, e.emitted_iff⟩, false)

end Entry

end Registry

/-- What is kept of the runs that are known, each under its number. -/
structure Registry where
  runs : List (PipelineId × Registry.Entry) := []
deriving DecidableEq, Repr, Inhabited

namespace Registry

def kept? (r : Registry) (id : PipelineId) : Option Entry := r.runs.lookup id

def get? (r : Registry) (id : PipelineId) : Option RunState := (r.kept? id).map (·.state)

def set (r : Registry) (id : PipelineId) (e : Entry) : Registry := ⟨Keyed.put id e r.runs⟩

/-- Makes a run known, unless it is, and gives its state. -/
def enter (r : Registry) (id : PipelineId) (segments : Nat) : RunState × Registry :=
  match r.kept? id with
  | some e => (e.state, r)
  | none => (.initial id segments, r.set id (.initial id segments))

def init (r : Registry) (id : PipelineId) (segments : Nat) : Registry := (r.enter id segments).2

def reset (r : Registry) (id : PipelineId) : Registry := ⟨r.runs.filter (·.1 ≠ id)⟩

/-- Changes what is kept of a run, and tells whether it moved the run. -/
def update (r : Registry) (id : PipelineId) (f : Entry → Option (Entry × Bool)) : Bool × Registry :=
  match (r.kept? id).bind f with
  | some (e, moved) => (moved, r.set id e)
  | none => (false, r)

def markRunning (r : Registry) (id : PipelineId) : Bool × Registry := r.update id Entry.markRunning

def fail (r : Registry) (id : PipelineId) (message : String) : Bool × Registry :=
  r.update id (·.fail message)

def abort (r : Registry) (id : PipelineId) (message : String := "Pipeline aborted") : Bool × Registry :=
  r.update id (·.abort message)

/-- Counts a finished segment, and tells whether it completed the run. -/
def segmentCompleted (r : Registry) (id : PipelineId) : Bool × Registry := r.update id Entry.countSegment

end Registry

end Pipeworks
