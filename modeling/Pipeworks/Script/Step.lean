import Pipeworks.Script.Eval
import Pipeworks.Script.Parser
import Pipeworks.Error
/-!
Scripts as steps of a pipeline. A script defines one function of one parameter that maps a record to its
replacement; `()` drops the record. A script that does not load is replaced by a step that passes every record
through.
-/
namespace Pipeworks

open Script

/-- A step of a pipeline maps a record to its replacement, drops it, or fails on it. -/
abbrev Step := Json → Except Error (Option Json)

namespace Script

/-- The time a script is given, unless said otherwise. -/
def defaultBudget : Duration := .ofMillis 250

/-- The steps that a run may spend: time is measured in steps, two thousand to the millisecond. -/
def stepsOf (budget : Duration) : Nat := 2000 * budget.millis

/-- More than the nesting of the evaluation of a script within its steps. -/
def fuelOf (budget : Duration) (source : Nat) : Nat := 4 * stepsOf budget + 400 * source + 1000

/-- A script that was loaded: it is run by its entry function. -/
structure Loaded where
  program : Program
  entry : String
  budget : Duration
  fuel : Nat

/-- How a message tells why a script stopped. A script speaks for itself when it throws; the causes known to
the engine alone have one word. -/
def Stop.text : Stop → String
  | .thrown .unit => "Runtime error"
  | .thrown v => "Runtime error: " ++ v.toText
  | _ => "<engine error>"

def entryName : String := "transform"

/-- The entry function: the only one of one parameter, or the one of the preferred name. -/
def entryOf (p : Program) : Except String String :=
  match (p.functions.filter (·.params.length = 1)).map (·.name) with
  | [] => .error "no single-parameter function defined"
  | [only] => .ok only
  | many =>
    if many.contains entryName then .ok entryName
    else
      .error ("ambiguous entry point, candidates: " ++
        ", ".intercalate (many.mergeSort fun a b => a < b || a == b) ++ " (name one '" ++ entryName ++ "')")

/-- Loads a script: reads it, finds its entry function, and runs its top-level statements once. -/
def load (source : String) (budget : Duration) : Except Error Loaded := do
  let p ← match Parser.parse source with
    | .ok p => pure p
    | .error _ => throw (.load "compile error: <engine error>")
  let entry ← (entryOf p).mapError .load
  let fuel := fuelOf budget source.length
  match statements fuel ⟨p.functions, 0⟩ .unit p.statements ⟨[], [], stepsOf budget⟩ with
  | .ok .. => return ⟨p, entry, budget, fuel⟩
  | .error (.returned _) _ => return ⟨p, entry, budget, fuel⟩
  | .error stop _ => throw (.load ("top-level statements failed: " ++ stop.text))

namespace Loaded

/-- Applies a script to a record; and what it printed, in order. -/
def run (l : Loaded) (record : Json) : Except Error (Option Json) × List Builtin.LogLine :=
  let ctx : Context := ⟨l.program.functions, 0⟩
  match l.program.functions.find? fun f => f.name = l.entry ∧ f.params.length = 1 with
  | none => (.error (.script (l.entry ++ ": <engine error>")), [])
  | some f =>
    let start : State := ⟨f.params.map fun n => ⟨n, .ofJson record, false⟩, [], stepsOf l.budget⟩
    match block l.fuel ctx f.body start with
    | .ok v s => (finish v, s.log.reverse)
    | .error (.returned v) s => (finish v, s.log.reverse)
    | .error .exhausted s =>
      (.error (.script (l.entry ++ " exceeded its time budget of " ++ l.budget.shown)), s.log.reverse)
    | .error stop s => (.error (.script (l.entry ++ ": " ++ stop.text)), s.log.reverse)
where
  /-- The record that a result stands for. -/
  finish (v : Value) : Except Error (Option Json) :=
    match v with
    | .unit => .ok none
    | v =>
      match v.toJson? with
      | none => .error (.script (l.entry ++ ": cannot convert result: <engine error>"))
      | some .null => .ok none
      | some j => .ok (some j)

def step (l : Loaded) : Step := fun record => (l.run record).1

def describe (l : Loaded) : String := "rhai fn " ++ l.entry

end Loaded

def check (source : String) : Except Error Unit := do
  let _ ← load source defaultBudget

end Script

namespace Step

def passthrough : Step := fun record => .ok (some record)

/-- The step of a script, or the one that passes records through if it does not load. -/
def ofScript (source : String) (budget : Duration) : Step :=
  match load source budget with
  | .ok l => l.step
  | .error _ => passthrough

end Step

end Pipeworks
