import Pipeworks.Plan.Order
import Mathlib.Data.List.AList
import Mathlib.Logic.Function.Iterate
/-!
The release of nodes, one operation at a time. A round of the loop takes a node from the queue and then counts the flows
that start at it one after another; here each of these is a step of its own. The ranks are a table that is filled as the
loop goes, and what joins the queue is written down.
-/
namespace Pipeworks.Release

/-- The loop between two steps. -/
structure Loop where
  state : State
  /-- The ends of the flows from the node taken last that are still to be counted. -/
  pending : List NodeRef
  ranks : AList fun _ : NodeRef => ℕ
  /-- All nodes that were ever put into the queue, in turn. -/
  joined : List NodeRef

namespace Loop

def begin (flows : List Flow) : Loop := ⟨start flows, [], ∅, (start flows).queue⟩

/-- One step: the next flow is counted, or where none is left the next node is taken, and its rank is the number of ranks
given so far. Where the queue is empty too, the loop is done. -/
def next (flows : List Flow) (l : Loop) : Loop :=
  match l.pending, l.state.queue with
  | t :: ts, _ =>
    { l with
      state := arrive l.state t
      pending := ts
      joined := if (l.state.counters.lower t).get t = 0 then l.joined ++ [t] else l.joined }
  | [], n :: queue =>
    { l with
      state := { l.state with queue, released := l.state.released ++ [n] }
      pending := targets flows n
      ranks := l.ranks.insert n l.ranks.entries.length }
  | [], [] => l

/-- The loop after a number of steps. -/
def after (flows : List Flow) (k : ℕ) : Loop := (next flows)^[k] (begin flows)

def Done (l : Loop) : Prop := l.pending = [] ∧ l.state.queue = []

/-- The rank of a node. A node without one counts as if it came after all others. -/
def rank (l : Loop) (n : NodeRef) : ℕ := (l.ranks.lookup n).getD l.ranks.entries.length

/-- Flows from nodes with a rank in the order of the ranks, and then the others as they stand. -/
def sorted (l : Loop) (flows : List Flow) : List Flow :=
  let (ranked, others) := flows.partition fun f => f.source ∈ l.ranks
  ranked.mergeSort (fun a b => l.rank a.source ≤ l.rank b.source) ++ others

end Loop

end Pipeworks.Release
