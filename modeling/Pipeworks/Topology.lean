import Pipeworks.Plan.Basic
import Pipeworks.Script.Step
/-!
The wiring of a cluster: which node hands its records to which, the steps at the transformations and the sinks
at the outputs. Flows are wired one after another; one that would close a loop, that starts at a node no input
leads to yet, or that ends at nothing is left out, so that every record comes to an end.
-/
namespace Pipeworks

/-- Where an output publishes: on the broker of its cluster or on another one. -/
inductive Sink where
  | near (topic : String)
  | bridge (broker topic : String)
deriving DecidableEq, Repr, Inhabited

namespace Sink

def topic : Sink → String
  | near t => t
  | bridge _ t => t

/-- The sink of an output of a cluster at the given broker. -/
def ofOutput (broker : String) (o : Endpoint) : Sink :=
  if o.broker = broker then near o.topic else bridge o.broker o.topic

end Sink

/-- How the records of a cluster travel. -/
structure Topology where
  /-- The wired flows in order. -/
  edges : Edges := []
  steps : List (Int × Step) := []
  sinks : List (Int × Sink) := []

namespace Topology

/-- The nodes to which a node hands its records, in the order of the flows. -/
def children (t : Topology) (n : NodeRef) : List NodeRef := t.edges.next n

def step? (t : Topology) (id : Int) : Option Step := (t.steps.find? (·.1 = id)).map (·.2)

def sink? (t : Topology) (id : Int) : Option Sink := (t.sinks.find? (·.1 = id)).map (·.2)

/-- Whether records may arrive at a node: it is an input, or a wired flow ends at it. -/
def live (t : Topology) (c : Cluster) (n : NodeRef) : Bool :=
  n ∈ c.inputs.map (.input ·.id) || t.edges.any (·.2 = n)

/-- A flow that leads on from a live node and not back to it. -/
def admits (t : Topology) (c : Cluster) (f : Flow) : Bool :=
  t.live c f.source && !t.edges.reaches f.target f.source

/-- Wires one flow, if it is admitted and its end is a transformation or an output of the cluster. -/
def wire (load : String → Step) (c : Cluster) (t : Topology) (f : Flow) : Topology :=
  if t.admits c f then
    let edges := t.edges ++ [f.ends]
    let id := f.target.id
    match f.target.kind with
    | .input => t
    | .transformation =>
      match c.transformation? id with
      | none => t
      | some node =>
        { t with edges, steps := if (t.step? id).isSome then t.steps else t.steps ++ [(id, load node.source)] }
    | .output =>
      match c.output? id with
      | none => t
      | some node =>
        { t with
          edges
          sinks := if (t.sink? id).isSome then t.sinks else t.sinks ++ [(id, Sink.ofOutput c.broker node)] }
  else t

/-- Wires the flows of a cluster; `load` makes the steps. -/
def build (load : String → Step) (c : Cluster) : Topology := c.flows.foldl (wire load c) {}

end Topology

end Pipeworks
