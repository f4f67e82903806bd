import Pipeworks.Event
/-!
The queue through which a worker sends its events. Handing over an event never waits and never fails: a full
queue loses its oldest event. A delivery task takes one event at a time and hands it to the receiver; after the
emitter was closed it goes on until the queue is empty.
-/
namespace Pipeworks

structure Emitter where
  /-- How many events may wait; there is always room for one. -/
  capacity : Nat
  queue : List Event := []
  /-- How many events were lost because the queue was full. -/
  dropped : Nat := 0
  closed : Bool := false
  /-- The event that is being delivered; it no longer waits. -/
  inHand : Option Event := none
  /-- The delivery task was stopped and delivers nothing any more. -/
  stopped : Bool := false
deriving Inhabited

namespace Emitter

def emit (q : Emitter) (e : Event) : Emitter :=
  if q.closed then q
  else if q.queue.length < max q.capacity 1 then { q with queue := q.queue ++ [e] }
  else { q with queue := q.queue.tail ++ [e], dropped := q.dropped + 1 }

/-- The delivery task takes the oldest event in hand. -/
def take (q : Emitter) : Emitter :=
  match q.stopped, q.inHand, q.queue with
  | false, none, e :: rest => { q with inHand := some e, queue := rest }
  | _, _, _ => q

/-- The receiver has the event in hand; whether it could use it does not matter. -/
def release (q : Emitter) : Option Event × Emitter :=
  if q.stopped then (none, q) else (q.inHand, { q with inHand := none })

/-- Delivers up to `n` events, and takes the next one in hand. -/
def deliver : Nat → Emitter → List Event × Emitter
  | 0, q => ([], q.take)
  | n + 1, q =>
    match q.take.release with
    | (none, q) => ([], q)
    | (some e, q) =>
      let (es, q) := deliver n q
      (e :: es, q)

def pending (q : Emitter) : List Event := q.inHand.toList ++ q.queue

def drain (q : Emitter) : List Event × Emitter := q.deliver (q.pending.length + 1)

def close (q : Emitter) : Emitter := { q with closed := true }

/-- Stops the delivery task if something is left to deliver, the event in hand included. -/
def giveUp (q : Emitter) : Emitter := { q with stopped := q.stopped || !q.pending.isEmpty }

end Emitter

end Pipeworks
