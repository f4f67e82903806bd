import Pipeworks.Run.Bus
/-!
A broadcast with one observer, which asks for events while others send them.
-/
namespace Pipeworks

/-- What an observer was answered, and the number of the event that it was to read next when it asked. -/
structure Heard where
  number : Nat
  reception : Reception

namespace Heard

/-- The event of an answer, with its number. -/
def read? (a : Heard) : Option (Nat × Event) :=
  match a.reception with
  | .event e => some (a.number, e)
  | _ => none

/-- Whether an answer tells that events were lost. -/
def isLag (a : Heard) : Bool :=
  match a.reception with
  | .lagged => true
  | _ => false

end Heard

/-- A broadcast with one observer, and all that the observer was answered. -/
structure Listener where
  broadcast : Broadcast
  observer : Observer
  heard : List Heard := []

namespace Listener

/-- An event is sent, or the observer asks for the next one. -/
inductive Turn where
  | send (e : Event)
  | next

def play (l : Listener) : Turn → Listener
  | .send e => { l with broadcast := l.broadcast.send e }
  | .next =>
    { l with
      observer := (l.broadcast.next l.observer).2
      heard := l.heard ++ [⟨l.observer.position, (l.broadcast.next l.observer).1⟩] }

/-- A new observer of a broadcast, after some turns. -/
def after (b : Broadcast) (turns : List Turn) : Listener := turns.foldl play ⟨b, b.subscribe, []⟩

/-- The events that the observer was given, with their numbers. -/
def reads (l : Listener) : List (Nat × Event) := l.heard.filterMap Heard.read?

def events (l : Listener) : List Event := l.reads.map Prod.snd

def numbers (l : Listener) : List Nat := l.reads.map Prod.fst

end Listener

end Pipeworks
