import Pipeworks.Duration
/-!
The stored graph of a pipeline: inputs, transformations, outputs, and the flows between them.
-/
namespace Pipeworks

/-- The number of a stored pipeline; a run is known by the pipeline it executes. -/
abbrev PipelineId := Int

/-- Field names and type names that a node declares for its records, in ascending order of the names. -/
abbrev Schema := List (String × String)

inductive NodeKind where
  | input
  | transformation
  | output
deriving DecidableEq, Repr, Inhabited

namespace NodeKind

def name : NodeKind → String
  | input => "input"
  | transformation => "transformation"
  | output => "output"

def names : List String := ["input", "transformation", "output"]

def ofName? : String → Option NodeKind
  | "input" => some input
  | "transformation" => some transformation
  | "output" => some output
  | _ => none

def rank : NodeKind → Nat
  | input => 0
  | transformation => 1
  | output => 2

end NodeKind

/-- One node of a graph. Inputs come before transformations and these before outputs; within a kind the
number decides. -/
structure NodeRef where
  kind : NodeKind
  id : Int
deriving DecidableEq, Repr, Inhabited

namespace NodeRef

abbrev input (id : Int) : NodeRef := ⟨.input, id⟩
abbrev transformation (id : Int) : NodeRef := ⟨.transformation, id⟩
abbrev output (id : Int) : NodeRef := ⟨.output, id⟩

/-- The key of a node within texts. -/
def name (n : NodeRef) : String := n.kind.name ++ "_" ++ toString n.id

/-- Whether a node comes before another one or is the same. -/
def le (a b : NodeRef) : Bool :=
  a.kind.rank < b.kind.rank || (a.kind.rank == b.kind.rank && decide (a.id ≤ b.id))

def sorted (ns : List NodeRef) : List NodeRef := ns.mergeSort le

def distinct (ns : List NodeRef) : List NodeRef := (sorted ns).eraseDups

end NodeRef

/-- A topic at a broker that a pipeline reads from or writes to: an input or an output. -/
structure Endpoint where
  id : Int
  name : Option String
  topic : String
  broker : String
  schema : Option Schema
deriving DecidableEq, Repr, Inhabited

/-- A step of a pipeline, given by the text of its script. -/
structure Transformation where
  id : Int
  name : Option String
  source : String
  schemaIn : Option Schema
  schemaOut : Option Schema
deriving DecidableEq, Repr, Inhabited

structure Flow where
  id : Option Int
  source : NodeRef
  target : NodeRef
deriving DecidableEq, Repr, Inhabited

namespace Flow

/-- The edge itself, whatever its number in the store. -/
def ends (f : Flow) : NodeRef × NodeRef := (f.source, f.target)

def name (f : Flow) : String := f.source.name ++ " -> " ++ f.target.name

end Flow

structure Graph where
  pipeline : PipelineId
  name : String
  inputs : List Endpoint
  outputs : List Endpoint
  transformations : List Transformation
  flows : List Flow
deriving DecidableEq, Repr, Inhabited

namespace Graph

def input? (g : Graph) (id : Int) : Option Endpoint := g.inputs.find? (·.id = id)

def output? (g : Graph) (id : Int) : Option Endpoint := g.outputs.find? (·.id = id)

def transformation? (g : Graph) (id : Int) : Option Transformation :=
  g.transformations.find? (·.id = id)

def contains (g : Graph) (n : NodeRef) : Bool :=
  match n.kind with
  | .input => (g.input? n.id).isSome
  | .transformation => (g.transformation? n.id).isSome
  | .output => (g.output? n.id).isSome

/-- All nodes: inputs, then transformations, then outputs, each in stored order. -/
def nodes (g : Graph) : List NodeRef :=
  g.inputs.map (.input ·.id) ++ g.transformations.map (.transformation ·.id) ++
    g.outputs.map (.output ·.id)

def givenName? (g : Graph) (n : NodeRef) : Option String :=
  match n.kind with
  | .input => (g.input? n.id).bind (·.name)
  | .transformation => (g.transformation? n.id).bind (·.name)
  | .output => (g.output? n.id).bind (·.name)

/-- How a message names a node: by its given name, else by its key. -/
def label (g : Graph) (n : NodeRef) : String :=
  match g.givenName? n with
  | some name => n.kind.name ++ " '" ++ name ++ "'"
  | none => n.name

def schemaIn? (g : Graph) (n : NodeRef) : Option Schema :=
  match n.kind with
  | .input => (g.input? n.id).bind (·.schema)
  | .transformation => (g.transformation? n.id).bind (·.schemaIn)
  | .output => (g.output? n.id).bind (·.schema)

def schemaOut? (g : Graph) (n : NodeRef) : Option Schema :=
  match n.kind with
  | .input => (g.input? n.id).bind (·.schema)
  | .transformation => (g.transformation? n.id).bind (·.schemaOut)
  | .output => (g.output? n.id).bind (·.schema)

end Graph

end Pipeworks
