import Pipeworks.Run.Bus
/-!
Observers of the events of all runs. Who asks for the stream is subscribed at once. When the connection is there, the
events are sent over it one after another, each as its text; between two of them it is heard whether the observer
leaves. A connection on which events were lost or could not be sent is given up, and so is one whose observer has left.
-/
namespace Pipeworks

namespace Connection

/-- Why a connection was given up. -/
inductive Cause where
  /-- The request did not become a connection. -/
  | refused
  | lagged
  | broken
  | left
deriving DecidableEq, Repr

/-- What comes in from an observer. -/
inductive Incoming where
  | message
  | close
  | fault
  | ended
deriving DecidableEq, Repr

/-- Whatever an observer says, only that it leaves counts. -/
def Incoming.leaves : Incoming → Bool
  | message => false
  | _ => true

inductive Stage where
  /-- The observer is subscribed, and its connection is not there yet. -/
  | opening
  /-- Waits for the next event, or for what comes in. -/
  | waiting
  | sending (text : String)
  | closed (cause : Cause)
deriving DecidableEq, Repr

/-- What happens to a connection. -/
inductive Act where
  | opened (success : Bool)
  /-- The next event is read, if there is one. -/
  | read
  /-- The text on its way was sent, or could not be. -/
  | sent (success : Bool)
  | hear (i : Incoming)
deriving DecidableEq, Repr

end Connection

/-- One observer with its connection, and the texts that were sent to it so far. -/
structure Connection where
  observer : Observer
  stage : Connection.Stage := .opening
  frames : List String := []
deriving DecidableEq, Repr

namespace Connection

def close (c : Connection) (cause : Cause) : Connection := { c with stage := .closed cause }

/-- One turn of a connection; what does not fit its stage does not happen. -/
def act (b : Broadcast) (c : Connection) : Act → Connection
  | .opened success =>
    match c.stage with
    | .opening => if success then { c with stage := .waiting } else c.close .refused
    | _ => c
  | .read =>
    match c.stage with
    | .waiting =>
      match b.next c.observer with
      | (.event e, o) => { c with observer := o, stage := .sending e.text }
      | (.pending, o) => { c with observer := o }
      | (.lagged, o) => { c with observer := o, stage := .closed .lagged }
    | _ => c
  | .sent success =>
    match c.stage with
    | .sending text =>
      if success then { c with stage := .waiting, frames := c.frames ++ [text] } else c.close .broken
    | _ => c
  | .hear i =>
    match c.stage with
    | .waiting => if i.leaves then c.close .left else c
    | _ => c

end Connection

/-- All that is sent, and the connections of the observers, each under a number of its own. -/
structure Audience where
  broadcast : Broadcast
  connection? : Nat → Option Connection := fun _ => none

namespace Audience

inductive Move where
  | send (e : Event)
  /-- An observer asks for the stream. -/
  | join (k : Nat)
  | turn (k : Nat) (t : Connection.Act)

def set (a : Audience) (k : Nat) (c : Connection) : Audience :=
  { a with connection? := fun j => if j = k then some c else a.connection? j }

def play (a : Audience) : Move → Audience
  | .send e => { a with broadcast := a.broadcast.send e }
  | .join k =>
    match a.connection? k with
    | none => a.set k ⟨a.broadcast.subscribe, .opening, []⟩
    | some _ => a
  | .turn k t =>
    match a.connection? k with
    | none => a
    | some c => a.set k (c.act a.broadcast t)

def plays (a : Audience) (moves : List Move) : Audience := moves.foldl play a

/-- From the start on, when nothing was sent and nobody is there. -/
def after (capacity : Nat) (moves : List Move) : Audience := plays { broadcast := { capacity } } moves

end Audience

end Pipeworks
