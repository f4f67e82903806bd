import Pipeworks.Duration
import Pipeworks.Error
import Pipeworks.FileSystem
/-!
Processes. The system runs a program until a moment at which it ends with a status that never changes; whoever
started the process sees that status when it looks, and remembers whether it had asked the process to stop while
it was still alive.
-/
namespace Pipeworks

/-- A moment, in nanoseconds since some beginning. -/
abbrev Moment := Nat

namespace Moment

/-- A moment has a count of seconds that fits 64 bits with a sign; there is none after the last one. -/
def later? (m : Moment) (d : Duration) : Option Moment :=
  if m + d.nanos < 9223372036854775808 * 1000000000 then some (m + d.nanos) else none

end Moment

inductive ExitStatus where
  | code (n : Nat)
  | signal (n : Nat)
deriving DecidableEq, Repr, Inhabited

namespace ExitStatus

def isSuccess (s : ExitStatus) : Bool := s == code 0

/-- The names of the signals, from number 1 on. -/
def signalNames : List String :=
  ["SIGHUP", "SIGINT", "SIGQUIT", "SIGILL", "SIGTRAP", "SIGABRT", "SIGBUS", "SIGFPE", "SIGKILL", "SIGUSR1",
    "SIGSEGV", "SIGUSR2", "SIGPIPE", "SIGALRM", "SIGTERM", "SIGSTKFLT", "SIGCHLD", "SIGCONT", "SIGSTOP",
    "SIGTSTP", "SIGTTIN", "SIGTTOU", "SIGURG", "SIGXCPU", "SIGXFSZ", "SIGVTALRM", "SIGPROF", "SIGWINCH",
    "SIGIO", "SIGPWR", "SIGSYS"]

def text : ExitStatus → String
  | code n => s!"exit status: {n}"
  | signal n =>
    match ("" :: signalNames)[n]? with
    | some name => if name.isEmpty then s!"signal: {n}" else s!"signal: {n} ({name})"
    | none => s!"signal: {n}"

end ExitStatus

namespace Signal

/-- The signal that asks a process to end. -/
def term : Nat := 15

/-- The signal that ends a process at once. -/
def kill : Nat := 9

/-- The signals that leave a process alive unless it says otherwise: none at all, those that are ignored, and
those that only hold it up. -/
def harmless : List Nat := [0, 17, 18, 19, 20, 21, 22, 23, 28]

end Signal

/-- What a program does on its own and when it is asked to end. -/
structure Program where
  /-- After which time it ends, and how; without it, it goes on. -/
  ends : Option (Duration × ExitStatus) := none
  heedsTerm : Bool := true
deriving Inhabited

/-- A program that the system runs. -/
structure Child where
  /-- The moment at which it ends, and how. -/
  fate : Option (Moment × ExitStatus)
  heedsTerm : Bool
deriving DecidableEq, Repr, Inhabited

namespace Child

def ofProgram (now : Moment) (p : Program) : Child :=
  ⟨p.ends.map fun (d, s) => (now + d.nanos, s), p.heedsTerm⟩

def status? (now : Moment) (c : Child) : Option ExitStatus :=
  (c.fate.filter fun f => f.1 ≤ now).map (·.2)

def heeds (c : Child) (signal : Nat) : Bool :=
  signal ∉ Signal.harmless && (signal ≠ Signal.term || c.heedsTerm)

/-- A signal arrives. What has ended takes no notice. -/
def receive (now : Moment) (signal : Nat) (c : Child) : Child :=
  if (c.status? now).isNone ∧ c.heeds signal then { c with fate := some (now, .signal signal) } else c

end Child

/-- A process as the one who started it knows it. -/
structure Subprocess where
  label : String
  child : Child
  /-- How it ended, once that was seen. -/
  exit : Option ExitStatus := none
  /-- Whether it was asked to stop while it was seen alive. -/
  stopRequested : Bool := false
deriving DecidableEq, Repr, Inhabited

namespace Subprocess

/-- Starts a program; it may not be there. -/
def launch (label : String) (now : Moment) : Except FileError Program → Except Error Subprocess
  | .ok p => .ok { label, child := .ofProgram now p }
  | .error e => .error (.spawn s!"{label}: {e.message}")

/-- Looks whether it has ended; what was seen once stays. -/
def poll (now : Moment) (p : Subprocess) : Option ExitStatus × Subprocess :=
  let exit := p.exit.or (p.child.status? now)
  (exit, { p with exit })

def isAlive (now : Moment) (p : Subprocess) : Bool × Subprocess :=
  let (s, p) := p.poll now
  (s.isNone, p)

/-- How it ended without having been asked to. -/
def exitedUnexpectedly (now : Moment) (p : Subprocess) : Option ExitStatus × Subprocess :=
  if p.stopRequested then (none, p) else p.poll now

/-- Whether it ended with a failure and without having been asked to. -/
def failed (now : Moment) (p : Subprocess) : Bool × Subprocess :=
  let (s, p) := p.exitedUnexpectedly now
  (s.any fun s => !s.isSuccess, p)

/-- Sends a signal to it, whoever does so. -/
def receive (now : Moment) (signal : Nat) (p : Subprocess) : Subprocess :=
  { p with child := p.child.receive now signal }

/-- From now on its end is expected, unless it has ended already. -/
def requestStop (now : Moment) (p : Subprocess) : Subprocess :=
  let (s, p) := p.poll now
  if s.isNone then { p with stopRequested := true } else p

def terminate (now : Moment) (p : Subprocess) : Subprocess := (p.requestStop now).receive now Signal.term

def kill (now : Moment) (p : Subprocess) : Subprocess := (p.requestStop now).receive now Signal.kill

/-- When its end can be seen, if it ever can. -/
def end? (now : Moment) (p : Subprocess) : Option Moment :=
  if p.exit.isSome then some now else p.child.fate.map fun f => max now f.1

/-- Waits until it has ended. Tells how it ended and when that was seen; who waits for a process that goes on for ever
gets no answer. -/
def wait? (now : Moment) (p : Subprocess) : Option (ExitStatus × Moment × Subprocess) :=
  match p.exit with
  | some e => some (e, now, p)
  | none => p.child.fate.map fun (m, e) => (e, max now m, { p with exit := some e })

end Subprocess

/-- How far the shutdown of a process has come: it was asked to end, or it was killed, and there is a limit to the
time that one waits for it. -/
inductive Shutdown where
  | asked (limit : Moment)
  | killed (limit : Moment)
deriving DecidableEq, Repr

inductive Shutdown.Next where
  /-- It is over; the process is gone, or it outlived even this. -/
  | done (status : Option ExitStatus) (p : Subprocess)
  | later (s : Shutdown) (p : Subprocess)
  /-- The process is alive, and there is time left. -/
  | wait

namespace Shutdown

/-- Asks a process to end within the grace period. -/
def start (grace : Duration) (now : Moment) (p : Subprocess) : Shutdown × Subprocess :=
  (asked (now + grace.nanos), p.terminate now)

def limit : Shutdown → Moment
  | asked l => l
  | killed l => l

/-- Goes on with a shutdown. A process that has not ended when the grace period is over is killed. -/
def next (grace : Duration) (now : Moment) (s : Shutdown) (p : Subprocess) : Next :=
  match p.poll now with
  | (some status, p) => .done status p
  | (none, _) =>
    if s.limit ≤ now then
      match s with
      | asked _ => .later (killed (now + grace.nanos)) (p.kill now)
      | killed _ => .done none p
    else .wait

/-- The moment until which nothing happens in a shutdown. -/
def wake (now : Moment) (s : Shutdown) (p : Subprocess) : Moment :=
  match p.end? now with
  | some m => min m s.limit
  | none => s.limit

end Shutdown

namespace Subprocess

/-- Carries a shutdown on to its end; a process is waited for at most twice, which bounds the steps. -/
def finishShutdown (grace : Duration) : Nat → Moment → Shutdown → Subprocess → Option ExitStatus × Moment × Subprocess
  | 0, now, _, p => (none, now, p)
  | n + 1, now, s, p =>
    match s.next grace now p with
    | .done status p => (status, now, p)
    | .later s p => finishShutdown grace n now s p
    | .wait => finishShutdown grace n (s.wake now p) s p

/-- Asks a process to end, waits for it, and kills it when the grace period is over. Tells how it ended and when
that was seen. -/
def shutdown (grace : Duration) (now : Moment) (p : Subprocess) : Option ExitStatus × Moment × Subprocess :=
  let (s, p) := Shutdown.start grace now p
  finishShutdown grace 5 now s p

end Subprocess

end Pipeworks
