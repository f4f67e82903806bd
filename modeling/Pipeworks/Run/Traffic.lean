import Pipeworks.Run.Bus
/-!
A bus among those who use it at the same time. Who hands in an event lets it have its effect on the run that it names,
then sends it, and then, if it completed the run, announces that. Each goes from one access to what they share to the
next, so that every interleaving is an order of acts: the state of a run is changed in one step, but nothing is held
from this step until the event is sent.
-/
namespace Pipeworks

namespace Bus

/-- How far the handing in of an event has come. -/
inductive Leg where
  | asked
  /-- The event has had its effect, which completed the run or not, and is to be sent. -/
  | applied (completed : Bool)
  /-- The event was sent; that the run is complete is to be announced. -/
  | sent
  | ended
deriving DecidableEq, Repr

/-- An event that is being handed in. -/
structure Call where
  event : Event
  leg : Leg := .asked

/-- On what occasion an event was sent. -/
inductive Occasion where
  /-- A call has handed it in. -/
  | handedIn (k : Nat)
  /-- A call has completed a run. -/
  | completed (k : Nat)
  | other
deriving DecidableEq, Repr

/-- A bus with all that is under way. -/
structure Traffic where
  bus : Bus
  calls : List Call := []
  /-- The runs that are known, each with the calls whose segments were counted for it, the first one first. -/
  tally : List (PipelineId × Nat) := []
  /-- All that was sent, the first one first. -/
  posts : List (Occasion × Event) := []

namespace Traffic

inductive Act where
  | init (id : PipelineId) (segments : Nat)
  | reset (id : PipelineId)
  | fail (id : PipelineId) (message : String)
  | abort (id : PipelineId) (message : String)
  | publish (e : Event)
  /-- Somebody begins to hand in an event. -/
  | ingest (e : Event)
  /-- The handing in of an event goes on to its next access. -/
  | advance (k : Nat)

def setLeg (t : Traffic) (k : Nat) (c : Call) (leg : Leg) : Traffic := { t with calls := t.calls.set k { c with leg } }

def withRegistry (t : Traffic) (registry : Registry) : Traffic := { t with bus := { t.bus with registry } }

def post (t : Traffic) (o : Occasion) (e : Event) : Traffic :=
  { t with bus := t.bus.publish e, posts := t.posts ++ [(o, e)] }

/-- Whether an event is counted for its run: it reports a finished segment of a run that has not ended. -/
def counts (r : Registry) (e : Event) : Bool :=
  e.kind = Event.segmentCompleted && (r.get? e.run).any (!·.status.isTerminal)

/-- The effect of an event on its run. -/
def affect (t : Traffic) (k : Nat) (e : Event) : Traffic :=
  let tally := if counts t.bus.registry e then t.tally ++ [(e.run, k)] else t.tally
  { t with tally }.withRegistry (Bus.apply t.bus.registry e).2

def carryOn (t : Traffic) (k : Nat) (c : Call) : Traffic :=
  match c.leg with
  | .asked =>
    match c.event.category with
    | .unknown => t.setLeg k c .ended
    | .stream => (t.post (.handedIn k) c.event).setLeg k c .ended
    | .lifecycle => (t.affect k c.event).setLeg k c (.applied (Bus.apply t.bus.registry c.event).1)
  | .applied completed => (t.post (.handedIn k) c.event).setLeg k c (if completed then .sent else .ended)
  | .sent => (t.post (.completed k) (completion c.event.run)).setLeg k c .ended
  | .ended => t

/-- What comes of an act; what does not fit does not happen. -/
def play (t : Traffic) : Act → Traffic
  | .init id segments => t.withRegistry (t.bus.registry.init id segments)
  | .reset id => { t with tally := t.tally.filter (·.1 ≠ id) }.withRegistry (t.bus.registry.reset id)
  | .fail id message => t.withRegistry (t.bus.registry.fail id message).2
  | .abort id message => t.withRegistry (t.bus.registry.abort id message).2
  | .publish e => t.post .other e
  | .ingest e => { t with calls := t.calls ++ [{ event := e }] }
  | .advance k =>
    match t.calls[k]? with
    | some c => t.carryOn k c
    | none => t

def plays (t : Traffic) (acts : List Act) : Traffic := acts.foldl play t

/-- From the start on, when no run is known. -/
def after (capacity : Nat) (acts : List Act) : Traffic := plays { bus := { broadcast := { capacity } } } acts

/-- The calls whose segments were counted for a run. -/
def counted (t : Traffic) (id : PipelineId) : List Nat := (t.tally.filter (·.1 = id)).map (·.2)

end Traffic

end Bus

end Pipeworks
