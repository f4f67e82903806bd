import Pipeworks.Worker.Basic
import Pipeworks.Worker.Intake
import Pipeworks.Emitter
/-!
Runs of a plan over brokers in memory, without processes: one worker for each cluster, which take turns. In its
turn a worker handles all that it can get; then its events are delivered.
-/
namespace Pipeworks

/-- How far a worker of a rehearsal has come. -/
inductive Progress where
  | waiting
  | working (home : String) (intake : Intake)
  | ended (outcome : Except Error Unit)

structure Actor where
  spec : WorkerSpec
  cluster : Cluster
  runner : Runner
  /-- A bare worker sends no events at all. -/
  bare : Bool
  progress : Progress := .waiting
  bridges : List (String × String) := []
  emitter : Emitter
  /-- The events that were delivered and not reported yet. -/
  delivered : List Event := []
  cancelled : Bool := false

namespace Actor

def ofCluster (spec : WorkerSpec) (cluster : Cluster) (bare : Bool) : Actor :=
  let spec := if bare then { spec with streamEvents := false } else spec
  { spec, cluster, bare
    runner := Worker.runner spec cluster
    emitter := { capacity := spec.queueCapacity } }

def hand (a : Actor) (e : Event) : Actor := if a.bare then a else { a with emitter := a.emitter.emit e }

def events (trace : List (Action String)) : List Event :=
  trace.filterMap fun
    | .emitted e => some e
    | _ => none

/-- Does some work and hands over its events; an error ends the worker. -/
def perform {α : Type} (h : Hub) (a : Actor) (work : Work Hub String α) : Option α × Hub × Actor :=
  let keep (s : Session Hub String) : Actor :=
    { (events s.trace).foldl hand a with bridges := s.bridges }
  match work ⟨h, a.bridges, []⟩ with
  | .ok x s => (some x, s.world, keep s)
  | .error e s => (none, s.world, { keep s with progress := .ended (.error e) })

/-- Connects a worker that has not begun. -/
def begin (h : Hub) (a : Actor) : Hub × Actor :=
  match a.progress with
  | .waiting =>
    match a.perform h (Worker.attach Hub.link a.spec a.cluster a.runner) with
    | (some home, h, a) =>
      let inputs := a.cluster.inputs.map fun i => { i with broker := a.cluster.broker }
      (h, { a with progress := .working home (Intake.ofInputs h inputs) })
    | (none, h, a) => (h, a)
  | _ => (h, a)

/-- Handles record after record while there are any; tells whether there was one. The first argument bounds
their number. -/
def consume : Nat → Hub → Actor → Bool → Bool × Hub × Actor
  | 0, h, a, any => (any, h, a)
  | n + 1, h, a, any =>
    match a.progress with
    | .working home intake =>
      match intake.next? h with
      | (none, intake) => (any, h, { a with progress := .working home intake })
      | (some (node, channel, record), intake) =>
        let arrival : Arrival := ⟨node, channel.topic, .ok record.payload⟩
        let (_, h, a) :=
          { a with progress := .working home intake }.perform h (Worker.accept Hub.link a.spec a.runner home arrival)
        consume n h a true
    | _ => (any, h, a)

def deliver (a : Actor) : Actor :=
  let (es, emitter) := a.emitter.drain
  { a with emitter, delivered := a.delivered ++ es }

def finish (a : Actor) : Actor :=
  match a.cancelled, a.progress with
  | true, .working .. => { a with progress := .ended (.ok ()) }
  | _, _ => a

/-- One turn of a worker; tells whether it did anything. -/
def turn (limit : Nat) (h : Hub) (a : Actor) : Bool × Hub × Actor :=
  let (h, a) := a.begin h
  let (any, h, a) := consume limit h a false
  (any, h, a.finish.deliver)

end Actor

structure Rehearsal where
  plan : Plan
  spec : Cluster → WorkerSpec
  bare : Bool
  hub : Hub := {}
  /-- The workers that were started, by the index of their cluster. -/
  actors : List (Nat × Actor) := []

namespace Rehearsal

/-- The channels of the outputs of a graph, each once, by broker and topic. -/
def outputChannels (g : Graph) : List Channel :=
  let all := (g.outputs.map fun o => (⟨o.broker, o.topic⟩ : Channel)).eraseDups
  all.mergeSort fun a b => a.broker < b.broker || (a.broker == b.broker && (a.topic < b.topic || a.topic == b.topic))

/-- More records than a settling handles, and more rounds. -/
def limit : Nat := 1000000

/-- Starts the worker of a cluster anew. -/
def start (r : Rehearsal) (c : Cluster) : Rehearsal :=
  let others := r.actors.filter (·.1 ≠ c.index)
  let entry := (c.index, Actor.ofCluster (r.spec c) c r.bare)
  { r with actors := (others ++ [entry]).mergeSort fun a b => a.1 ≤ b.1 }

/-- Tells the workers of some clusters to stop. -/
def cancel (r : Rehearsal) (which : Nat → Bool) : Rehearsal :=
  { r with actors := r.actors.map fun (i, a) => (i, if which i then { a with cancelled := true } else a) }

/-- Every worker has its turn, by the index of its cluster. -/
def round (h : Hub) : List (Nat × Actor) → Bool × Hub × List (Nat × Actor)
  | [] => (false, h, [])
  | (i, a) :: rest =>
    let (any, h, a) := a.turn limit h
    let (more, h, rest) := round h rest
    (any || more, h, (i, a) :: rest)

/-- Rounds follow until one does nothing. -/
def settleWithin : Nat → Rehearsal → Rehearsal
  | 0, r => r
  | n + 1, r =>
    let (any, hub, actors) := round r.hub r.actors
    let r := { r with hub, actors }
    if any then settleWithin n r else r

def settle (r : Rehearsal) : Rehearsal := settleWithin limit r

/-- Forgets the delivered events, which were reported. -/
def reported (r : Rehearsal) : Rehearsal :=
  { r with actors := r.actors.map fun (i, a) => (i, { a with delivered := [] }) }

end Rehearsal

end Pipeworks
