import Pipeworks.Supervisor.Call
/-!
A supervisor among its surroundings. A scene is a supervisor with the calls to it that are under way, and a move is
what may happen next: a call is made or goes on, a caller gives up, a monitor goes on, time passes, a signal hits a
process, or an event comes in. Whoever moves goes from one point where it gives way to the next, so the sequences of
moves are the interleavings. The surroundings may be others at every move.
-/
namespace Pipeworks

/-- A call that was just made. -/
def Call.isNew : Call → Bool
  | .start _ _ .asked => true
  | .stop _ .asked => true
  | .abort _ .asked => true
  | .status _ none => true
  | .shutdownAll .asked => true
  | _ => false

structure Scene where
  supervisor : Supervisor
  /-- The calls that have no answer yet, in the order in which they were made. -/
  calls : List Call := []

inductive Move where
  | ask (c : Call)
  /-- A call goes on by one step. -/
  | proceed (k : Nat) (env : Surroundings)
  /-- The caller of a start does not wait any longer. -/
  | giveUp (k : Nat)
  /-- The monitor of a generation goes on by one step. -/
  | watch (g : Nat) (timerFirst : Bool)
  | pass (time : Nat)
  | signal (process number : Nat)
  | ingest (e : Event)

/-- Whether all callers wait for their answers. -/
def Move.isPatient : Move → Bool
  | .giveUp _ => false
  | _ => true

namespace Scene

/-- A supervisor that has not done anything, and nobody calls. -/
def ofConfig (config : Config) : Scene := { supervisor := .ofConfig config }

/-- A call goes on, if it need not wait. -/
def proceed (x : Scene) (k : Nat) (env : Surroundings) : Option Scene :=
  (x.calls[k]?).bind fun c =>
    match x.supervisor.step env c with
    | .answer _ s => some ⟨s, x.calls.eraseIdx k⟩
    | .later c s => some ⟨s, x.calls.set k c⟩
    | .wait => none

/-- What comes of a move, if it can be made. -/
def play (x : Scene) : Move → Option Scene
  | .ask c => if c.isNew then some { x with calls := x.calls ++ [c] } else none
  | .proceed k env => x.proceed k env
  | .giveUp k =>
    match x.calls[k]? with
    | some (.start id _ stage) => some ⟨x.supervisor.abandonStart id stage, x.calls.eraseIdx k⟩
    | _ => none
  | .watch g timerFirst => (x.supervisor.stepMonitor g timerFirst).map fun s => { x with supervisor := s }
  | .pass time => some { x with supervisor := { x.supervisor with now := x.supervisor.now + time } }
  | .signal process number => some { x with supervisor := x.supervisor.signal process number }
  | .ingest e => some { x with supervisor := (x.supervisor.ingest e).2 }

/-- Scenes that moves of some sort lead to. -/
inductive Reachable (config : Config) (P : Move → Prop) : Scene → Prop where
  | start : Reachable config P (ofConfig config)
  | move {x x' : Scene} {m : Move} : Reachable config P x → P m → x.play m = some x' → Reachable config P x'

end Scene

/-- Something that happened. -/
structure Deed where
  before : Scene
  move : Move
  after : Scene

/-- All that happened up to a scene. -/
inductive History (config : Config) : List Deed → Scene → Prop where
  | start : History config [] (.ofConfig config)
  | move {τ : List Deed} {x x' : Scene} {m : Move} : History config τ x → m.isPatient = true → x.play m = some x' →
      History config (τ ++ [⟨x, m, x'⟩]) x'

end Pipeworks
