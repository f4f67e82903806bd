import Pipeworks.Run.Registry
import Pipeworks.Event
/-!
The bus on which events come in and go out to all observers. Lifecycle events move the states of the runs; every
event of a known category is passed on, and the event that completes a run is followed by its announcement.
-/
namespace Pipeworks

/-- Events that were sent to all observers. A limited number of the latest ones is kept for those that fall
behind. -/
structure Broadcast where
  /-- How many events are kept at least. -/
  capacity : Nat
  /-- All events in the order in which they were sent. -/
  sent : Array Event := #[]
deriving Inhabited

/-- One reader of a broadcast: the number of the event that it reads next. -/
structure Observer where
  position : Nat
deriving DecidableEq, Repr, Inhabited

/-- What an observer is answered. It is never told that the broadcast is closed: what sends lives as long as the bus, so
there is always somebody who may send again. -/
inductive Reception where
  | event (e : Event)
  /-- Nothing was sent since. -/
  | pending
  /-- Events were lost; the observer goes on with the oldest one that is kept. -/
  | lagged

namespace Broadcast

/-- The least power of two from `n` on; `k` bounds the search. -/
def powerFrom (n : Nat) : Nat → Nat → Nat
  | 0, p => p
  | k + 1, p => if n ≤ p then p else powerFrom n k (2 * p)

/-- How many events are kept: the capacity, at least one, rounded up to a power of two. -/
def kept (b : Broadcast) : Nat := powerFrom (max b.capacity 1) (max b.capacity 1) 1

def send (b : Broadcast) (e : Event) : Broadcast := { b with sent := b.sent.push e }

/-- A new observer gets what is sent from now on. -/
def subscribe (b : Broadcast) : Observer := ⟨b.sent.size⟩

def next (b : Broadcast) (o : Observer) : Reception × Observer :=
  let oldest := b.sent.size - b.kept
  if o.position < oldest then (.lagged, ⟨oldest⟩)
  else
    match b.sent[o.position]? with
    | some e => (.event e, ⟨o.position + 1⟩)
    | none => (.pending, o)

/-- Reads until something is no event, which is the last item; the first argument bounds the number of readings. -/
def drainWithin (b : Broadcast) : Nat → Observer → List Reception × Observer
  | 0, o => ([], o)
  | n + 1, o =>
    match b.next o with
    | (.event e, o) =>
      let (rest, o) := drainWithin b n o
      (.event e :: rest, o)
    | (r, o) => ([r], o)

/-- Reads all that there is for an observer, up to the first item that is no event. -/
def drain (b : Broadcast) (o : Observer) : List Reception × Observer := b.drainWithin (b.sent.size + 2) o

end Broadcast

inductive Ingest where
  | accepted
  | ignored
deriving DecidableEq, Repr

namespace Ingest

def name : Ingest → String
  | accepted => "accepted"
  | ignored => "ignored"

end Ingest

/-- The states of the runs, and the events that tell of them. -/
structure Bus where
  registry : Registry := {}
  broadcast : Broadcast
deriving Inhabited

namespace Bus

/-- Sends an event without any effect on a run. -/
def publish (b : Bus) (e : Event) : Bus := { b with broadcast := b.broadcast.send e }

/-- What a lifecycle event does to its run; the flag tells whether it completed the run. -/
def apply (r : Registry) (e : Event) : Bool × Registry :=
  if e.kind = Event.segmentStarted then (false, (r.markRunning e.run).2)
  else if e.kind = Event.segmentCompleted then r.segmentCompleted e.run
  else if e.kind = Event.failed then (false, (r.fail e.run e.message).2)
  else if e.kind = Event.aborted then (false, (r.abort e.run).2)
  else (false, r)

def completion (run : PipelineId) : Event := Event.announcement run Event.completed "Pipeline completed"

def ingest (b : Bus) (e : Event) : Ingest × Bus :=
  match e.category with
  | .unknown => (.ignored, b)
  | .stream => (.accepted, b.publish e)
  | .lifecycle =>
    let (completed, registry) := apply b.registry e
    let b := { b with registry }.publish e
    (.accepted, if completed then b.publish (completion e.run) else b)

/-- The calls on the bus and on its registry. -/
inductive Act where
  | init (id : PipelineId) (segments : Nat)
  | reset (id : PipelineId)
  | ingest (e : Event)
  | publish (e : Event)

def act (b : Bus) : Act → Bus
  | .init id segments => { b with registry := b.registry.init id segments }
  | .reset id => { b with registry := b.registry.reset id }
  | .ingest e => (b.ingest e).2
  | .publish e => b.publish e

def acts (b : Bus) (calls : List Act) : Bus := calls.foldl act b

end Bus

end Pipeworks
