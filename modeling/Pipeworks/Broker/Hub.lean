import Pipeworks.Broker.Record
/-!
Brokers in memory. A topic keeps all its records in order, and every subscription reads them from the first
one on, whenever it was opened. A broker that is down refuses connections and publications; its topics can
still be read and filled directly.
-/
namespace Pipeworks

structure Channel where
  broker : String
  topic : String
deriving DecidableEq, Repr, Inhabited

/-- All brokers of one memory. -/
structure Hub where
  logs : List (Channel × Array Record) := []
  /-- The topic of every record, in the order in which the records were added. -/
  history : Array Channel := #[]
  down : List String := []
deriving Inhabited

/-- A place in the records of a topic: the number of records that were read. -/
structure Subscription where
  channel : Channel
  offset : Nat
deriving DecidableEq, Repr, Inhabited

namespace Hub

def records (h : Hub) (c : Channel) : Array Record :=
  ((h.logs.find? (·.1 = c)).map (·.2)).getD #[]

/-- Adds a record to a topic, past any client. -/
def produce (h : Hub) (c : Channel) (r : Record) : Hub :=
  let logs :=
    if h.logs.any (·.1 = c) then
      h.logs.map fun (c', rs) => if c' = c then (c', rs.push r) else (c', rs)
    else h.logs ++ [(c, #[r])]
  { h with logs, history := h.history.push c }

def setDown (h : Hub) (broker : String) (down : Bool) : Hub :=
  if down then { h with down := if broker ∈ h.down then h.down else h.down ++ [broker] }
  else { h with down := h.down.filter (· ≠ broker) }

/-- Refuses what a broker that is down cannot do. -/
def requireUp (h : Hub) (broker : String) : Except Error Unit :=
  if broker ∈ h.down then .error (.transport broker "broker is down") else .ok ()

/-- Connects to a broker; a client is known by the address of its broker. -/
def connect (h : Hub) (broker : String) : Except Error Unit := h.requireUp broker

def publish (h : Hub) (c : Channel) (r : Record) : Except Error Hub := do
  h.requireUp c.broker
  return h.produce c r

/-- Opens a subscription at the first record. Subscriptions do not share their records. -/
def subscribe (_ : Hub) (c : Channel) : Subscription := ⟨c, 0⟩

/-- The next record of a subscription, if there is one yet. -/
def next? (h : Hub) (s : Subscription) : Option (Record × Subscription) :=
  ((h.records s.channel)[s.offset]?).map fun r => (r, { s with offset := s.offset + 1 })

end Hub

end Pipeworks
