import Pipeworks.Supervisor.Call
/-!
A schedule for one caller: a call goes on as far as it can, then the monitors do, and when nobody can go on, time
passes until the next moment at which somebody can.
-/
namespace Pipeworks

namespace Supervisor

/-- More steps than a schedule makes. -/
def stepLimit : Nat := 10000000

/-- One step of the first monitor that can make one. -/
def stepAnyMonitor (s : Supervisor) : Option Supervisor :=
  (List.range s.generations.length).findSome? fun g => s.stepMonitor g

/-- The monitors go on as long as they can. The first argument bounds the steps. -/
def settleMonitors : Nat → Supervisor → Supervisor
  | 0, s => s
  | n + 1, s =>
    match s.stepAnyMonitor with
    | some s => settleMonitors n s
    | none => s

/-- The next moment at which a monitor can go on, from now on. -/
def nextWake? (s : Supervisor) : Option Moment :=
  ((s.generations.filterMap fun x => x.monitor.wake? s).filter fun m => s.now < m).min?

/-- Time passes until a moment; the monitors do what falls to them meanwhile. -/
def advanceWithin : Nat → Supervisor → Moment → Supervisor
  | 0, s, _ => s
  | n + 1, s, until_ =>
    let s := settleMonitors stepLimit s
    match s.nextWake? with
    | some m => if m ≤ until_ then advanceWithin n { s with now := m } until_ else { s with now := max s.now until_ }
    | none => { s with now := max s.now until_ }

def idle (s : Supervisor) (d : Duration) : Supervisor :=
  settleMonitors stepLimit (advanceWithin stepLimit s (s.now + d.nanos))

/-- Time passes until something holds, if it ever does; tells whether it does. -/
def waitWithin (goal : Supervisor → Bool) : Nat → Supervisor → Bool × Supervisor
  | 0, s => (goal s, s)
  | n + 1, s =>
    let s := settleMonitors stepLimit s
    if goal s then (true, s)
    else
      match s.nextWake? with
      | some m => waitWithin goal n { s with now := m }
      | none => (false, s)

/-- Carries a call on until it has its answer or comes to a stage that `halt` accepts. There is neither if it has
to wait for ever. -/
def carry (env : Surroundings) (halt : Call → Bool) : Nat → Call → Supervisor → Option (Answer ⊕ Call) × Supervisor
  | 0, _, s => (none, s)
  | n + 1, c, s =>
    if halt c then (some (.inr c), s)
    else
      match s.step env c with
      | .answer a s => (some (.inl a), settleMonitors stepLimit s)
      | .later c s => carry env halt n c s
      | .wait =>
        match s.stepAnyMonitor with
        | some s => carry env halt n c s
        | none =>
          match (s.nextWake?.toList ++ ((c.wake? s).filter fun m => s.now < m).toList).min? with
          | some m => carry env halt n c { s with now := m }
          | none => (none, s)

/-- Carries a call on to its answer. -/
def perform (env : Surroundings) (c : Call) (s : Supervisor) : Option Answer × Supervisor :=
  match carry env (fun _ => false) stepLimit c s with
  | (some (.inl a), s) => (some a, s)
  | (_, s) => (none, s)

end Supervisor

end Pipeworks
