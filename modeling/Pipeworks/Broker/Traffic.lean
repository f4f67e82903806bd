import Pipeworks.Broker.Hub
/-!
Brokers in memory among those who use them at the same time. Who publishes looks whether the broker is up, finds the
topic, adds the record, and wakes the subscriptions that wait for one; who produces does not ask for the broker. A
subscription that is to give a record has itself counted among those who are woken, looks at its place, and waits if
there is nothing yet. Each of them goes from one access to what they share to the next, so that every interleaving is
an order of acts.
-/
namespace Pipeworks

namespace Hub

/-- Finds a topic; who looks for it first makes an empty one. -/
def locate (h : Hub) (c : Channel) : Hub :=
  if h.logs.any (·.1 = c) then h else { h with logs := h.logs ++ [(c, #[])] }

/-- How far a record has come on its way to a topic. -/
inductive Leg where
  | asked
  /-- The broker was found up, or nobody asked. -/
  | admitted
  /-- The topic is found; the record is to be added. -/
  | arrived
  /-- The record was added; those who wait are to be woken. -/
  | added
  | sent
  /-- The broker was found down. -/
  | refused
deriving DecidableEq, Repr

structure Sending where
  channel : Channel
  record : Record
  leg : Leg

/-- What a subscription is doing. -/
inductive Reading where
  | idle
  /-- From now on a wake-up counts, whether it comes before it waits or after; it is about to look at its place. -/
  | armed (woken : Bool)
  /-- There was nothing at its place; it waits to be woken. -/
  | waiting (woken : Bool)
deriving DecidableEq, Repr

def Reading.wake : Reading → Reading
  | .idle => .idle
  | .armed _ => .armed true
  | .waiting _ => .waiting true

structure Reader where
  place : Subscription
  reading : Reading := .idle
  /-- The records that it has given, the first one first. -/
  given : List Record := []

namespace Reader

/-- Wakes the subscriptions of one topic. -/
def wake (c : Channel) (r : Reader) : Reader :=
  if r.place.channel = c then { r with reading := r.reading.wake } else r

def advance (h : Hub) (r : Reader) : Reader :=
  match r.reading with
  | .idle => { r with reading := .armed false }
  | .armed woken =>
    match h.next? r.place with
    | some (record, place) => { place, given := r.given ++ [record] }
    | none => { r with reading := .waiting woken }
  | .waiting true => { r with reading := .idle }
  | .waiting false => r

end Reader

/-- The brokers with all that is under way. -/
structure Traffic where
  hub : Hub := {}
  /-- The brokers of the clients that are connected. -/
  clients : List String := []
  sendings : List Sending := []
  readers : List Reader := []

namespace Traffic

inductive Act where
  | connect (broker : String)
  /-- A client begins to publish. -/
  | publish (client : Nat) (topic : String) (record : Record)
  /-- Somebody begins to produce, past any client. -/
  | produce (c : Channel) (record : Record)
  /-- A sending goes on to its next access. Those who wait are woken along with the access that adds the record, or
  else later. -/
  | send (k : Nat) (atOnce : Bool)
  /-- A client opens a subscription. -/
  | subscribe (client : Nat) (topic : String)
  /-- A subscription goes on to its next access. -/
  | read (k : Nat)
  | setDown (broker : String) (down : Bool)

/-- Each access to the records of a topic is one step with the wake-up that belongs to it. -/
def Act.prompt : Act → Bool
  | .send _ atOnce => atOnce
  | _ => true

def setLeg (t : Traffic) (k : Nat) (s : Sending) (leg : Leg) : Traffic :=
  { t with sendings := t.sendings.set k { s with leg } }

def add (t : Traffic) (k : Nat) (s : Sending) : Traffic :=
  { t with hub := t.hub.produce s.channel s.record }.setLeg k s .added

def wake (t : Traffic) (k : Nat) (s : Sending) : Traffic :=
  { t with readers := t.readers.map (Reader.wake s.channel) }.setLeg k s .sent

def carryOn (t : Traffic) (k : Nat) (s : Sending) (atOnce : Bool) : Traffic :=
  match s.leg with
  | .asked =>
    match t.hub.requireUp s.channel.broker with
    | .ok () => t.setLeg k s .admitted
    | .error _ => t.setLeg k s .refused
  | .admitted => { t with hub := t.hub.locate s.channel }.setLeg k s .arrived
  | .arrived => if atOnce then (t.add k s).wake k s else t.add k s
  | .added => t.wake k s
  | .sent => t
  | .refused => t

def connect (t : Traffic) (broker : String) : Traffic :=
  match t.hub.connect broker with
  | .ok () => { t with clients := t.clients ++ [broker] }
  | .error _ => t

def subscribe (t : Traffic) (c : Channel) : Traffic :=
  { t with hub := t.hub.locate c, readers := t.readers ++ [{ place := t.hub.subscribe c }] }

/-- What comes of an act; what does not fit does not happen. -/
def play (t : Traffic) : Act → Traffic
  | .connect broker => t.connect broker
  | .publish client topic record =>
    match t.clients[client]? with
    | some broker => { t with sendings := t.sendings ++ [⟨⟨broker, topic⟩, record, .asked⟩] }
    | none => t
  | .produce c record => { t with sendings := t.sendings ++ [⟨c, record, .admitted⟩] }
  | .send k atOnce =>
    match t.sendings[k]? with
    | some s => t.carryOn k s atOnce
    | none => t
  | .subscribe client topic =>
    match t.clients[client]? with
    | some broker => t.subscribe ⟨broker, topic⟩
    | none => t
  | .read k =>
    match t.readers[k]? with
    | some r => { t with readers := t.readers.set k (r.advance t.hub) }
    | none => t
  | .setDown broker down => { t with hub := t.hub.setDown broker down }

def plays (t : Traffic) (acts : List Act) : Traffic := acts.foldl play t

/-- From the start on, when there is no broker yet. -/
def after (acts : List Act) : Traffic := plays {} acts

end Traffic

end Hub

end Pipeworks
