import Pipeworks.Broker.Hub
import Pipeworks.Event
/-!
How a worker meets the brokers: it connects to them, subscribes and publishes, and each of these may fail. A
session keeps what the brokers remember, the bridges that were opened, and all that the worker did, in order.
-/
namespace Pipeworks

/-- Brokers as a worker meets them: `σ` is what they remember, `κ` is a connected client. -/
structure Link (σ κ : Type) where
  connect : String → σ → Except Error κ × σ
  subscribe : κ → (topic group : String) → σ → Except Error Unit × σ
  publish : κ → (topic : String) → Record → σ → Except Error Unit × σ

inductive Action (κ : Type) where
  | connected (broker : String)
  /-- It published a payload through a client. -/
  | published (client : κ) (channel : Channel) (payload : ByteArray)
  | emitted (e : Event)

/-- A worker at work. -/
structure Session (σ κ : Type) where
  world : σ
  /-- The clients for other brokers, each connected once. -/
  bridges : List (String × κ) := []
  /-- What was done, the first action first. -/
  trace : List (Action κ) := []

/-- Work that may fail; what was done up to a failure remains done. -/
abbrev Work (σ κ : Type) : Type → Type := EStateM Error (Session σ κ)

namespace Work

variable {σ κ α : Type}

def note (a : Action κ) : Work σ κ Unit := modify fun s => { s with trace := s.trace ++ [a] }

/-- Asks the brokers; a failure is told as `explain` says. -/
def ask (op : σ → Except Error α × σ) (explain : Error → Error) : Work σ κ α := fun s =>
  match op s.world with
  | (.ok a, world) => .ok a { s with world }
  | (.error e, world) => .error (explain e) { s with world }

def connect (link : Link σ κ) (broker : String) (explain : Error → Error) : Work σ κ κ := do
  note (.connected broker)
  ask (link.connect broker) explain

end Work

namespace Hub

/-- Brokers in memory: a client is the address that it is connected to. -/
def link : Link Hub String where
  connect broker h := ((h.connect broker).map fun _ => broker, h)
  subscribe _ _ _ h := (.ok (), h)
  publish broker topic r h :=
    match h.publish ⟨broker, topic⟩ r with
    | .ok h' => (.ok (), h')
    | .error e => (.error e, h)

end Hub

end Pipeworks
