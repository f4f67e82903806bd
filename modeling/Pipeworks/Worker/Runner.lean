import Pipeworks.Worker.Link
import Pipeworks.Topology
/-!
The work of one cluster: every record that arrives on an input goes down the topology, is published at each
output it comes to, and is reported by events. A record is handled to its end before the next one is taken; the
first fault ends the work.
-/
namespace Pipeworks

/-- A cluster with its wiring, ready to work. -/
structure Runner where
  pipeline : PipelineId
  cluster : Cluster
  topology : Topology
  streamEvents : Bool

/-- A record on an input of a cluster, or the failure of the subscription. -/
structure Arrival where
  input : NodeRef
  topic : String
  item : Except Error ByteArray

namespace Runner

variable {σ κ : Type}

/-- The runner of a cluster, its scripts loaded with a time budget. -/
def ofCluster (pipeline : PipelineId) (cluster : Cluster) (budget : Duration) (streamEvents : Bool) : Runner :=
  ⟨pipeline, cluster, Topology.build (Step.ofScript · budget) cluster, streamEvents⟩

/-- A fault names the cluster in which it happened. -/
def fault (r : Runner) (text : String) : Error := .runtimeFault r.cluster.index text

/-- Reports a record, if records are reported. -/
def emit (r : Runner) (kind topic : String) (value : Json) : Work σ κ Unit :=
  if r.streamEvents then
    Work.note (.emitted (Event.stream r.pipeline r.cluster.index kind topic value))
  else pure ()

/-- Connects a bridge and keeps its client. -/
def openBridge (link : Link σ κ) (r : Runner) (broker : String) : Work σ κ κ := do
  let client ← Work.connect link broker fun e => r.fault s!"cannot open bridge to {broker}: {e.message}"
  modify fun s => { s with bridges := s.bridges ++ [(broker, client)] }
  return client

/-- The client for another broker; the first use connects it. -/
def bridge (link : Link σ κ) (r : Runner) (broker : String) : Work σ κ κ := do
  match (← get).bridges.find? (·.1 = broker) with
  | some (_, client) => return client
  | none => r.openBridge link broker

/-- The broker that a sink publishes on, and the client for it; `home` is the client of the cluster's broker. -/
def clientFor (link : Link σ κ) (r : Runner) (home : κ) : Sink → Work σ κ (String × κ)
  | .near _ => return (r.cluster.broker, home)
  | .bridge broker _ => return (broker, ← r.bridge link broker)

def publish (link : Link σ κ) (r : Runner) (home : κ) (sink : Sink) (value : Json) : Work σ κ Unit := do
  let (broker, client) ← r.clientFor link home sink
  let payload := Record.encode value
  Work.ask (link.publish client sink.topic (.ofPayload payload)) fun e =>
    r.fault s!"publish to '{sink.topic}' failed: {e.message}"
  Work.note (.published client ⟨broker, sink.topic⟩ payload)
  r.emit "output" sink.topic value

/-- Offers a value to a child: an output publishes it; what a step makes of it is kept for later. -/
def offer (link : Link σ κ) (r : Runner) (home : κ) (value : Json) (kept : List (NodeRef × Json))
    (child : NodeRef) : Work σ κ (List (NodeRef × Json)) :=
  match child.kind with
  | .input => return kept
  | .output =>
    match r.topology.sink? child.id with
    | none => return kept
    | some sink => do
      r.publish link home sink value
      return kept
  | .transformation =>
    match r.topology.step? child.id with
    | none => return kept
    | some step =>
      match step value with
      | .ok none => return kept
      | .ok (some next) => return (child, next) :: kept
      | .error e => throw (r.fault s!"{child.name} raised: {e.message}")

/-- Carries a value down from a node: it is offered to all children, the last one first, and what the steps made
of it is carried on, the first one first. No path is longer than the number of flows, which bounds the depth. -/
def descend (link : Link σ κ) (r : Runner) (home : κ) : Nat → NodeRef → Json → Work σ κ Unit
  | 0, _, _ => return
  | depth + 1, n, value => do
    let kept ← (r.topology.children n).reverse.foldlM (r.offer link home value) []
    kept.forM fun (child, next) => descend link r home depth child next

def handle (link : Link σ κ) (r : Runner) (home : κ) (input : NodeRef) (topic : String)
    (payload : ByteArray) : Work σ κ Unit := do
  match Record.decode payload with
  | .error e => throw (r.fault s!"undecodable record on '{topic}': {e.message}")
  | .ok value =>
    r.emit "input" topic value
    r.descend link home (r.topology.edges.length + 1) input value

def accept (link : Link σ κ) (r : Runner) (home : κ) (a : Arrival) : Work σ κ Unit :=
  match a.item with
  | .ok payload => r.handle link home a.input a.topic payload
  | .error e => throw (r.fault s!"subscription to '{a.topic}' failed: {e.message}")

/-- Connects to the broker of the cluster and subscribes to all inputs. -/
def attach (link : Link σ κ) (r : Runner) : Work σ κ κ := do
  let home ← Work.connect link r.cluster.broker id
  r.cluster.inputs.forM fun i => Work.ask (link.subscribe home i.topic r.cluster.group) id
  return home

/-- The whole work of a cluster on what arrives until it is told to stop. -/
def run (link : Link σ κ) (r : Runner) (arrivals : List Arrival) : Work σ κ Unit := do
  let home ← r.attach link
  arrivals.forM (r.accept link home)

end Runner

end Pipeworks
