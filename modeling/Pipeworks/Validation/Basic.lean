import Pipeworks.Validation.Cycle
import Pipeworks.Run.Status
import Pipeworks.Script.Step
/-!
The checks that a graph must pass before it may run, and those that only warn.
-/
namespace Pipeworks

inductive Severity where
  | error
  | warning
deriving DecidableEq, Repr

namespace Severity

def name : Severity → String
  | error => "error"
  | warning => "warning"

end Severity

/-- The rules about the structure of a graph, and those that only give advice. -/
inductive LintRule where
  | flowDirection
  | flowEndpointsExist
  | cycle
  | reachability
  | schemaCompatibility
  | transformationCompiles
deriving DecidableEq, Repr

namespace LintRule

def name : LintRule → String
  | flowDirection => "flow_direction"
  | flowEndpointsExist => "flow_endpoints_exist"
  | cycle => "cycle"
  | reachability => "reachability"
  | schemaCompatibility => "schema_compatibility"
  | transformationCompiles => "transformation_compiles"

def severity : LintRule → Severity
  | schemaCompatibility => .warning
  | transformationCompiles => .warning
  | _ => .error

def structural : List LintRule := [flowDirection, flowEndpointsExist, cycle, reachability]

def advisory : List LintRule := [schemaCompatibility, transformationCompiles]

end LintRule

/-- What a rule has to say, and about which node or flow. -/
structure Diagnostic where
  rule : LintRule
  message : String
  node : Option NodeRef := none
  flow : Option (NodeRef × NodeRef) := none
deriving DecidableEq, Repr

namespace Diagnostic

def severity (d : Diagnostic) : Severity := d.rule.severity

end Diagnostic

/-- The brokers met so far, each with the nodes that use it, and the slot in which each broker stands. -/
structure Roster where
  users : List (String × List NodeRef) := []
  slots : List (String × Nat) := []

namespace Roster

/-- The slot of a broker. A new one comes last, with no node yet. -/
def slot (r : Roster) (address : String) : Nat × Roster :=
  match r.slots.lookup address with
  | some k => (k, r)
  | none =>
    let k := r.users.length
    (k, { users := r.users ++ [(address, [])], slots := (address, k) :: r.slots })

/-- The roster with one more node, which is put to its broker. -/
def enter (r : Roster) (e : String × NodeRef) : Roster :=
  let (k, r) := r.slot e.1
  { r with users := r.users.modify k fun u => (u.1, u.2 ++ [e.2]) }

end Roster

namespace Graph

/-- No flow may end at an input or start at an output. -/
def misdirected (g : Graph) : List Diagnostic :=
  g.flows.flatMap fun f =>
    let number := match f.id with
      | some id => s!" (flow {id})"
      | none => ""
    let said := fun (what : String) =>
      ({ rule := .flowDirection, message := s!"Flow {f.name}: {what}{number}", flow := f.ends } : Diagnostic)
    (if f.target.kind = .input then [said "an input cannot be a destination"] else []) ++
      (if f.source.kind = .output then [said "an output cannot be a source"] else [])

/-- Both ends of a flow must be stored. -/
def dangling (g : Graph) : List Diagnostic :=
  g.flows.flatMap fun f =>
    ([f.source, f.target].filter fun n => !g.contains n).map fun n =>
      { rule := .flowEndpointsExist
        message := s!"Flow {f.name} references unknown node " ++ n.name
        node := some n
        flow := some f.ends }

/-- Where the search for a cycle starts: every node, and every start of a flow that is no node. -/
def cycleRoots (g : Graph) : List NodeRef :=
  g.flows.foldl (fun roots f => if f.source ∈ roots then roots else roots ++ [f.source]) g.nodes

/-- The flows may not lead in a circle. The first circle found is reported. -/
def circular (g : Graph) : List Diagnostic :=
  match g.edges.findCycle? g.cycleRoots with
  | none => []
  | some path =>
    [{ rule := .cycle, message := "Cycle detected in pipeline flows: " ++ " -> ".intercalate (path.map (·.name)),
       node := path.head? }]

/-- The nodes that some input leads to, the inputs among them. -/
def fed (g : Graph) : List NodeRef := g.edges.reached (g.inputs.map (.input ·.id))

/-- Every transformation and output must be led to by some input. -/
def unreachable (g : Graph) : List Diagnostic :=
  let fed := g.fed
  (g.nodes.filter fun n => n.kind ≠ .input ∧ n ∉ fed).map fun n =>
    { rule := .reachability, message := g.label n ++ " is not reachable from any input", node := n }

/-- The keys that the end of a flow expects and its start does not promise. -/
def missingKeys (g : Graph) (f : Flow) : List String :=
  match g.schemaOut? f.source, g.schemaIn? f.target with
  | some produced, some expected =>
    if produced.isEmpty ∨ expected.isEmpty then []
    else (expected.map (·.1)).filter fun k => !produced.any (·.1 == k)
  | _, _ => []

def mismatched (g : Graph) : List Diagnostic :=
  (g.flows.filter fun f => !(g.missingKeys f).isEmpty).map fun f =>
    { rule := .schemaCompatibility,
      message := s!"Schema mismatch between {f.source.name} and {f.target.name}: missing keys " ++
        ", ".intercalate (g.missingKeys f),
      flow := f.ends }

/-- Scripts that do not load will pass records through. -/
def unloadable (g : Graph) : List Diagnostic :=
  g.transformations.filterMap fun t =>
    match Script.check t.source with
    | .ok _ => none
    | .error e =>
      some { rule := .transformationCompiles,
             message := g.label (.transformation t.id) ++ " will pass records through unchanged: " ++ e.message,
             node := some (.transformation t.id) }

def diagnose (g : Graph) : LintRule → List Diagnostic
  | .flowDirection => g.misdirected
  | .flowEndpointsExist => g.dangling
  | .cycle => g.circular
  | .reachability => g.unreachable
  | .schemaCompatibility => g.mismatched
  | .transformationCompiles => g.unloadable

/-- What the rules say; there is advice only for a graph without errors. -/
def lint (g : Graph) : List Diagnostic :=
  let errors := LintRule.structural.flatMap g.diagnose
  if errors.isEmpty then LintRule.advisory.flatMap g.diagnose else errors

def presence (g : Graph) : List String :=
  (if g.inputs.isEmpty then ["Pipeline has no inputs defined."] else []) ++
    (if g.outputs.isEmpty then ["Pipeline has no outputs defined."] else []) ++
    (if g.flows.isEmpty then ["Pipeline has no flows (connections) defined."] else [])

/-- The inputs and outputs with their brokers. -/
def endpoints (g : Graph) : List (String × NodeRef) :=
  g.inputs.map (fun e => (e.broker, .input e.id)) ++ g.outputs.map (fun e => (e.broker, .output e.id))

/-- The brokers of a graph, each with the nodes that use it. -/
def roster (g : Graph) : Roster := g.endpoints.foldl Roster.enter {}

def unreachableBroker (address : String) (users : List String) : String :=
  s!"Cannot reach broker at {address} (used by " ++ ", ".intercalate users ++ ")"

/-- Asks for every broker of a graph, and has one error for each that does not answer. -/
def checkConnectivity {m : Type → Type} [Monad m] (g : Graph) (probe : String → m Bool) : m (List String) := do
  let users := g.roster.users
  let reachable ← users.mapM fun u => probe u.1
  return ((users.zip reachable).filter fun p => !p.2).map fun p => unreachableBroker p.1.1 (p.1.2.map g.label)

/-- One error for each broker that does not answer, with the nodes that use it. -/
def connectivity (g : Graph) (reachable : String → Bool) : List String :=
  Id.run (g.checkConnectivity fun a => pure (reachable a))

/-- All checks. Where something is missing altogether, nothing else is looked at. -/
def validate (g : Graph) (reachable : String → Bool) : Report :=
  if g.presence.isEmpty then
    let said := g.lint
    Report.of
      (g.connectivity reachable ++ (said.filter (·.severity = .error)).map (·.message))
      ((said.filter (·.severity = .warning)).map (·.message))
  else Report.of g.presence []

/-- The report of a valid graph; the errors of another one are raised. -/
def requireValid (g : Graph) (reachable : String → Bool) : Except Error Report :=
  let report := g.validate reachable
  if report.valid then .ok report else .error (.validation report.summary)

end Graph

end Pipeworks
