import Pipeworks.Emitter
/-!
An emitter among those who use it at the same time. Who hands over an event looks whether the emitter is closed, adds
the event, and wakes the delivery task. Who shuts the emitter down closes it, wakes the task, takes hold of it and
waits for its end, for a time. The task takes one event after another and hands each to the receiver; when it finds
none, it looks whether the emitter is closed, and waits to be woken. Each of them goes from one access to what they
share to the next, so that every interleaving is an order of acts.
-/
namespace Pipeworks

namespace Emitter

/-- Adds an event as to an open emitter: who has found it open adds his event though it may be closed by now. -/
def add (q : Emitter) (e : Event) : Emitter :=
  { (({ q with closed := false } : Emitter).emit e) with closed := q.closed }

/-- How far the handing over of an event has come. -/
inductive Handover where
  | asked (e : Event)
  /-- It found the emitter open. -/
  | admitted (e : Event)
  /-- The event was added; the task is to be woken. -/
  | added
  | over

/-- How far a shutdown has come. -/
inductive Closing where
  | asked
  /-- The emitter is closed; the task is to be woken. -/
  | closed
  /-- It is about to take hold of the task, if nobody did so before. -/
  | woken
  /-- It waits for the end of the task. -/
  | waiting
  | over
deriving DecidableEq, Repr

/-- Where the delivery task is. -/
inductive Task where
  /-- It is about to take the oldest event. -/
  | taking
  /-- The receiver has an event and did not answer yet. -/
  | delivering
  /-- Nothing was waiting; it is about to look whether the emitter is closed. -/
  | doubting
  /-- It waits to be woken. -/
  | waiting
  | ended
deriving DecidableEq, Repr

/-- An emitter with all that is under way. -/
structure Traffic where
  emitter : Emitter
  handovers : List Handover := []
  closings : List Closing := []
  task : Task := .taking
  /-- Somebody has woken the task, and it did not notice yet. -/
  woken : Bool := false
  /-- A shutdown has taken hold of the task. -/
  claimed : Bool := false
  /-- The task is to be stopped where it waits next. -/
  doomed : Bool := false
  /-- All events that were added, the first one first. -/
  added : List Event := []
  /-- The events that were handed to the receiver, the first one first. -/
  handed : List Event := []

namespace Traffic

inductive Act where
  /-- Somebody begins to hand over an event. -/
  | call (e : Event)
  /-- A handing over goes on to its next access. -/
  | hand (k : Nat)
  /-- Somebody begins a shutdown. -/
  | shutDown
  /-- A shutdown goes on; while it waits, its time may be over. -/
  | close (k : Nat) (inTime : Bool)
  /-- The task goes on to its next access. -/
  | deliver
  /-- The receiver answers; it could use the event or not. -/
  | answer (success : Bool)
  /-- The task is stopped. -/
  | stop

def setHandover (t : Traffic) (k : Nat) (h : Handover) : Traffic := { t with handovers := t.handovers.set k h }

def setClosing (t : Traffic) (k : Nat) (c : Closing) : Traffic := { t with closings := t.closings.set k c }

def handOn (t : Traffic) (k : Nat) : Traffic :=
  match t.handovers[k]? with
  | some (.asked e) => if t.emitter.closed then t.setHandover k .over else t.setHandover k (.admitted e)
  | some (.admitted e) => { t with emitter := t.emitter.add e, added := t.added ++ [e] }.setHandover k .added
  | some .added => { t with woken := true }.setHandover k .over
  | _ => t

/-- A shutdown that has waited long enough has the task stopped and is over without waiting for that. -/
def closeOn (t : Traffic) (k : Nat) (inTime : Bool) : Traffic :=
  match t.closings[k]? with
  | some .asked => { t with emitter := t.emitter.close }.setClosing k .closed
  | some .closed => { t with woken := true }.setClosing k .woken
  | some .woken => if t.claimed then t.setClosing k .over else { t with claimed := true }.setClosing k .waiting
  | some .waiting =>
    if t.task = .ended then t.setClosing k .over
    else if inTime then t
    else { t with doomed := true }.setClosing k .over
  | _ => t

def deliverOn (t : Traffic) : Traffic :=
  match t.task with
  | .taking =>
    let q := t.emitter.take
    match q.inHand with
    | some e => { t with emitter := q, handed := t.handed ++ [e], task := .delivering }
    | none => { t with task := .doubting }
  | .doubting => { t with task := if t.emitter.closed then .ended else .waiting }
  | .waiting => if t.woken then { t with woken := false, task := .taking } else t
  | _ => t

/-- The receiver is done with an event; what it made of it makes no difference. -/
def answered (t : Traffic) : Traffic :=
  if t.task = .delivering then { t with emitter := t.emitter.release.2, task := .taking } else t

/-- A task that is to be stopped ends where it waits, be it for the receiver or to be woken. -/
def stopped (t : Traffic) : Traffic :=
  if t.doomed ∧ (t.task = .delivering ∨ t.task = .waiting) then { t with emitter := t.emitter.giveUp, task := .ended }
  else t

/-- What comes of an act; what does not fit does not happen. -/
def play (t : Traffic) : Act → Traffic
  | .call e => { t with handovers := t.handovers ++ [.asked e] }
  | .hand k => t.handOn k
  | .shutDown => { t with closings := t.closings ++ [.asked] }
  | .close k inTime => t.closeOn k inTime
  | .deliver => t.deliverOn
  | .answer _ => t.answered
  | .stop => t.stopped

def plays (t : Traffic) (acts : List Act) : Traffic := acts.foldl play t

/-- From the start on, when nothing was handed over and the task has just begun. -/
def after (capacity : Nat) (acts : List Act) : Traffic := plays { emitter := { capacity } } acts

end Traffic

end Emitter

end Pipeworks
