import Pipeworks.Broker.Hub
import Pipeworks.Graph.Basic
/-!
The merged subscriptions of a worker. Subscriptions that may have a record stand in a queue; one that gave a
record goes to its end, one that had none waits until its topic grows. So every input is served in turn.
-/
namespace Pipeworks

structure Intake where
  inlets : Array (NodeRef × Subscription)
  /-- The inlets to ask, by number, the next one first. -/
  ready : List Nat
  /-- The inlets that wait, in the order in which they began to. -/
  waiting : List Nat
  /-- How far the growth of the topics was noticed. -/
  seen : Nat

namespace Intake

/-- At first every inlet is to be asked. -/
def ofInputs (h : Hub) (inputs : List Endpoint) : Intake :=
  { inlets := (inputs.map fun i => (NodeRef.input i.id, h.subscribe ⟨i.broker, i.topic⟩)).toArray
    ready := List.range inputs.length
    waiting := []
    seen := h.history.size }

/-- Wakes the inlets that wait for a topic. -/
def wake (t : Intake) (c : Channel) : Intake :=
  let (woken, waiting) := t.waiting.partition fun i => (t.inlets[i]?).any (·.2.channel = c)
  { t with ready := t.ready ++ woken, waiting }

/-- Notices what was added to the topics since the last time. -/
def notice (h : Hub) (t : Intake) : Intake :=
  { (h.history.toList.drop t.seen).foldl wake t with seen := h.history.size }

/-- Asks the inlets in turn. The first argument bounds the number of inlets asked. -/
def ask (h : Hub) : Nat → Intake → Option (NodeRef × Channel × Record) × Intake
  | 0, t => (none, t)
  | n + 1, t =>
    match t.ready with
    | [] => (none, t)
    | i :: ready =>
      match t.inlets[i]? with
      | none => ask h n { t with ready }
      | some (node, s) =>
        match h.next? s with
        | some (r, s') =>
          (some (node, s.channel, r),
            { t with inlets := t.inlets.set! i (node, s'), ready := ready ++ [i] })
        | none => ask h n { t with ready, waiting := t.waiting ++ [i] }

/-- The next record of any inlet, with the input and the topic it came from. -/
def next? (h : Hub) (t : Intake) : Option (NodeRef × Channel × Record) × Intake :=
  let t := t.notice h
  ask h t.ready.length t

end Intake

end Pipeworks
