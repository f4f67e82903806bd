import Pipeworks.Graph.Reach
/-!
The order of flows: a node is released once all flows into it come from released nodes, and flows are ordered
by the release of the nodes they start at. Flows from nodes that are never released come last, as they stood.
-/
namespace Pipeworks

namespace Release

/-- How many flows into a node come from nodes that were not released yet. -/
abbrev Counters := List (NodeRef × Nat)

def Counters.get (cs : Counters) (n : NodeRef) : Nat :=
  ((cs.find? (·.1 = n)).map (·.2)).getD 0

def Counters.lower (cs : Counters) (n : NodeRef) : Counters :=
  cs.map fun (m, k) => if m = n then (m, k - 1) else (m, k)

/-- Nodes that wait for their release in turn, nodes that were released, and the counters. -/
structure State where
  queue : List NodeRef
  released : List NodeRef
  counters : Counters

/-- The nodes of flows in the order of their first appearance. -/
def appearance (flows : List Flow) : List NodeRef :=
  (flows.flatMap fun f => [f.source, f.target]).eraseDups

/-- At first every flow into a node counts, and the nodes without one are ready. -/
def start (flows : List Flow) : State :=
  let counters := (appearance flows).map fun n => (n, flows.countP (·.target = n))
  ⟨(counters.filter (·.2 = 0)).map (·.1), [], counters⟩

/-- Counts one flow into a node; the last one makes it ready. -/
def arrive (s : State) (n : NodeRef) : State :=
  let counters := s.counters.lower n
  if counters.get n = 0 then { s with queue := s.queue ++ [n], counters } else { s with counters }

/-- The ends of the flows that start at a node. -/
def targets (flows : List Flow) (n : NodeRef) : List NodeRef := (flows.filter (·.source = n)).map (·.target)

def step (flows : List Flow) (s : State) : State :=
  match s.queue with
  | [] => s
  | n :: queue =>
    (targets flows n).foldl arrive { s with queue, released := s.released ++ [n] }

def run (flows : List Flow) : Nat → State → State
  | 0, s => s
  | fuel + 1, s => if s.queue.isEmpty then s else run flows fuel (step flows s)

/-- The nodes in the order of their release; each is released at most once. -/
def order (flows : List Flow) : List NodeRef :=
  (run flows (appearance flows).length (start flows)).released

end Release

/-- Flows in an order in which, as far as possible, a flow into a node comes before those from it. -/
def sortFlows (flows : List Flow) : List Flow :=
  let order := Release.order flows
  let (ordered, leftover) := flows.partition fun f => f.source ∈ order
  ordered.mergeSort (fun a b => order.idxOf a.source ≤ order.idxOf b.source) ++ leftover

end Pipeworks
