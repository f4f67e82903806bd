import Pipeworks.Graph.Basic
/-!
Walking along flows: the nodes that are reached from given ones, and what it means to be reached.
-/
namespace Pipeworks

abbrev Edges := List (NodeRef × NodeRef)

namespace Edges

/-- The ends of the edges that start at a node, in the order of the edges. -/
def next (es : Edges) (n : NodeRef) : List NodeRef :=
  (es.filter (·.1 = n)).map Prod.snd

/-- A walk along edges, of no edge at all or more. -/
inductive Walk (es : Edges) : NodeRef → NodeRef → Prop where
  | here (n : NodeRef) : Walk es n n
  | step {a b c : NodeRef} : (a, b) ∈ es → Walk es b c → Walk es a c

/-- A node from which a walk of at least one edge leads back to it. -/
def OnCycle (es : Edges) (n : NodeRef) : Prop :=
  ∃ m, (n, m) ∈ es ∧ Walk es m n

/-- Adds to `seen` what is reached from the nodes still to visit. -/
def explore (es : Edges) : Nat → List NodeRef → List NodeRef → List NodeRef
  | 0, _, seen => seen
  | _ + 1, [], seen => seen
  | fuel + 1, n :: todo, seen =>
    let new := ((es.next n).filter (· ∉ seen)).eraseDups
    explore es fuel (todo ++ new) (seen ++ new)

/-- The nodes that are reached from the roots, the roots among them. Every visit beyond those of the roots is
paid for by an edge that leads to a node not seen before. -/
def reached (es : Edges) (roots : List NodeRef) : List NodeRef :=
  explore es (roots.length + es.length + 1) roots roots

def reaches (es : Edges) (a b : NodeRef) : Bool := b ∈ es.reached [a]

end Edges

namespace Graph

def edges (g : Graph) : Edges := g.flows.map Flow.ends

end Graph

end Pipeworks
