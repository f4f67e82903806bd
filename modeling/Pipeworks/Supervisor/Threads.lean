import Pipeworks.Supervisor.Scene
import Pipeworks.Supervisor.Thread
/-!
A supervisor whose calls run on threads of their own. The interleavings of several threads are the sequences of moves. A
thread keeps its place when its call is over, so that the places stand for the calls in the order in which they were
made. A history is all that happened; in annals the callers of starts may have gone away as well.
-/
namespace Pipeworks

/-- A supervisor and the threads of all calls that were ever made, in the order in which they were made. -/
structure Threads where
  supervisor : Supervisor
  threads : List Thread := []

namespace Threads

def ofConfig (config : Config) : Threads := { supervisor := .ofConfig config }

/-- A thread makes a step, if it need not wait. -/
def proceed (x : Threads) (k : Nat) (env : Surroundings) : Option Threads :=
  (x.threads[k]?).bind fun t => (t.step env x.supervisor).map fun (t, s) => ⟨s, x.threads.set k t⟩

/-- What comes of a move, if it can be made. All callers wait for their answers. -/
def play (x : Threads) : Move → Option Threads
  | .ask c => if c.isNew then some { x with threads := x.threads ++ [.calling c] } else none
  | .proceed k env => x.proceed k env
  | .giveUp _ => none
  | .watch g timerFirst => (x.supervisor.stepMonitor g timerFirst).map fun s => { x with supervisor := s }
  | .pass time => some { x with supervisor := { x.supervisor with now := x.supervisor.now + time } }
  | .signal process number => some { x with supervisor := x.supervisor.signal process number }
  | .ingest e => some { x with supervisor := (x.supervisor.ingest e).2 }

/-- The caller of a start goes away where the start gives way to others. What it held is given back, and its place is
left as that of a call that is over. -/
def abandon (x : Threads) (k : Nat) : Option Threads :=
  match x.threads[k]? with
  | some (.calling (.start id _ stage)) => some ⟨x.supervisor.abandonStart id stage, x.threads.set k (.answered .done)⟩
  | _ => none

/-- Something that happened. -/
structure Deed where
  before : Threads
  move : Move
  after : Threads

/-- All that happened up to a moment. -/
inductive History (config : Config) : List Deed → Threads → Prop where
  | start : History config [] (ofConfig config)
  | move {τ : List Deed} {x x' : Threads} {m : Move} : History config τ x → x.play m = some x' →
      History config (τ ++ [⟨x, m, x'⟩]) x'

/-- All that happened up to a moment, if the callers of starts may go away. -/
inductive Annals (config : Config) : List Deed → Threads → Prop where
  | start : Annals config [] (ofConfig config)
  | move {τ : List Deed} {x x' : Threads} {m : Move} : Annals config τ x → x.play m = some x' →
      Annals config (τ ++ [⟨x, m, x'⟩]) x'
  | giveUp {τ : List Deed} {x x' : Threads} {k : Nat} : Annals config τ x → x.abandon k = some x' →
      Annals config (τ ++ [⟨x, .giveUp k, x'⟩]) x'

/-- What happens as moves are made one after another, as far as they can be made. -/
def trace (x : Threads) : List Move → List Deed
  | [] => []
  | m :: ms =>
    match x.play m with
    | some x' => ⟨x, m, x'⟩ :: trace x' ms
    | none => []

/-- A step of a thread. -/
def Deed.isOf (k : Nat) (d : Deed) : Bool :=
  match d.move with
  | .proceed l _ => l = k
  | _ => false

/-- All that a thread did. -/
def deeds (τ : List Deed) (k : Nat) : List Deed := τ.filter (Deed.isOf k)

end Threads

end Pipeworks
