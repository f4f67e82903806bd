import Pipeworks.Graph.Reach
/-!
The search for a cycle among edges: depth first, and the first cycle met is the answer.
-/
namespace Pipeworks.Edges

/-- The part of a path that a return to one of its nodes closes. The path has its newest node first. -/
def closed (path : List NodeRef) (n : NodeRef) : List NodeRef :=
  (path.takeWhile (· ≠ n) ++ [n]).reverse ++ [n]

/-- Visits a node and all that it leads to: the cycle that is met, or the nodes visited so far. The first
argument bounds the length of the path. -/
def visit (es : Edges) : Nat → List NodeRef → List NodeRef → NodeRef →
    Except (List NodeRef) (List NodeRef)
  | 0, _, visited, _ => .ok visited
  | fuel + 1, path, visited, n =>
    if n ∈ path then .error (closed path n)
    else if n ∈ visited then .ok visited
    else (es.next n).foldlM (visit es fuel (n :: path)) (n :: visited)

/-- The first cycle met from the roots in turn, its first node once more at its end. -/
def findCycle? (es : Edges) (roots : List NodeRef) : Option (List NodeRef) :=
  match roots.foldlM (visit es (roots.length + es.length + 2) []) [] with
  | .ok _ => none
  | .error cycle => some cycle

end Pipeworks.Edges
