import Pipeworks.Plan.Order
import Pipeworks.Graph.Format
import Pipeworks.Error
/-!
Execution plans: the inputs of a pipeline are parted by broker, and each part with all that it reaches is one
cluster, which one worker runs.
-/
namespace Pipeworks

open Json (Decoder)
open Json.Record (once need)

/-- The part of a pipeline that one worker runs. -/
structure Cluster where
  index : Nat
  broker : String
  group : String
  inputs : List Endpoint
  /-- The flows that are reached from the inputs, in the order of the plan. -/
  flows : List Flow
  transformations : List Transformation
  outputs : List Endpoint
deriving DecidableEq, Repr, Inhabited

namespace Cluster

def transformation? (c : Cluster) (id : Int) : Option Transformation :=
  c.transformations.find? (·.id = id)

def output? (c : Cluster) (id : Int) : Option Endpoint := c.outputs.find? (·.id = id)

def bridges (c : Cluster) : Bool := c.outputs.any (·.broker ≠ c.broker)

structure Draft where
  index : Option Nat := none
  broker : Option String := none
  group : Option String := none
  inputs : Option (List Endpoint) := none
  flows : Option (List Flow) := none
  transformations : Option (List Transformation) := none
  outputs : Option (List Endpoint) := none

def format : Json.Record Draft Cluster where
  name := "Cluster"
  fields := ["index", "broker", "consumer_group", "inputs", "flows", "transformations", "outputs"]
  blank := {}
  read key p x d :=
    match key with
    | "index" => once "index" d.index Decoder.count p x fun v => { d with index := v }
    | "broker" => once "broker" d.broker Decoder.string p x fun v => { d with broker := v }
    | "consumer_group" => once "consumer_group" d.group Decoder.string p x fun v => { d with group := v }
    | "inputs" =>
      once "inputs" d.inputs (Decoder.list Graph.inputDecoder) p x fun v => { d with inputs := v }
    | "flows" => once "flows" d.flows (Decoder.list Flow.format.decoder) p x fun v => { d with flows := v }
    | "transformations" =>
      once "transformations" d.transformations (Decoder.list Transformation.format.decoder) p x fun v =>
        { d with transformations := v }
    | "outputs" =>
      once "outputs" d.outputs (Decoder.list Graph.outputDecoder) p x fun v => { d with outputs := v }
    | _ => none
  finish d := do
    return {
      index := ← need "index" d.index
      broker := ← need "broker" d.broker
      group := ← need "consumer_group" d.group
      inputs := ← need "inputs" d.inputs
      flows := ← need "flows" d.flows
      transformations := ← need "transformations" d.transformations
      outputs := ← need "outputs" d.outputs }

def decoder : Decoder Cluster := format.decoder

def json (c : Cluster) : Json :=
  .obj [("index", Json.nat c.index), ("broker", .str c.broker), ("consumer_group", .str c.group),
    ("inputs", .arr (c.inputs.map Endpoint.json)), ("flows", .arr (c.flows.map Flow.json)),
    ("transformations", .arr (c.transformations.map Transformation.json)),
    ("outputs", .arr (c.outputs.map Endpoint.json))]

end Cluster

/-- What is to be run: all flows in order, and the clusters. -/
structure Plan where
  pipeline : PipelineId
  flows : List Flow
  clusters : List Cluster
deriving DecidableEq, Repr, Inhabited

namespace Plan

def json (p : Plan) : Json :=
  .obj [("pipeline_id", .int p.pipeline), ("ordered_flows", .arr (p.flows.map Flow.json)),
    ("clusters", .arr (p.clusters.map Cluster.json))]

/-- What the names of consumer groups begin with, unless said otherwise. -/
def defaultGroup : String := "flowgate"

/-- Gives every cluster a consumer group of its own for one run. -/
def assignGroups (p : Plan) (first runTag : String) : Plan :=
  { p with clusters := p.clusters.map fun c =>
      { c with group := first ++ "-" ++ toString p.pipeline ++ "-" ++ runTag ++ "-" ++ toString c.index } }

/-- The brokers of the inputs, in the order of their first appearance. -/
def brokers (g : Graph) : List String := (g.inputs.map (·.broker)).eraseDups

/-- The cluster of a broker: its inputs, and what is reached from them. -/
def cluster (g : Graph) (flows : List Flow) (index : Nat) (broker : String) : Cluster :=
  let inputs := g.inputs.filter (·.broker = broker)
  let reached := Edges.reached (flows.map Flow.ends) (inputs.map (.input ·.id))
  { index
    broker
    group := defaultGroup ++ "-" ++ toString g.pipeline ++ "-" ++ toString index
    inputs
    flows := flows.filter fun f => f.source ∈ reached ∧ g.contains f.target
    transformations := g.transformations.filter fun t => .transformation t.id ∈ reached
    outputs := g.outputs.filter fun o => .output o.id ∈ reached }

/-- Makes the plan of a graph, with one cluster for each broker of an input. -/
def compile (g : Graph) : Except Error Plan :=
  if g.inputs.isEmpty then .error (.compile s!"pipeline {g.pipeline} has no inputs")
  else
    let flows := sortFlows g.flows
    .ok ⟨g.pipeline, flows, (brokers g).mapIdx (cluster g flows)⟩

end Plan

end Pipeworks
