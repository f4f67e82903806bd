import Pipeworks.Run.Transition
import Mathlib.Logic.Function.Basic
/-!
The registry under calls that overlap. A call looks up the record that is known under a number and changes it later, in
one step; in between, other calls may change the record, and the number may be forgotten and be given to a new record.
The ledger keeps every record that was ever made, with the calls that were made on it.
-/
namespace Pipeworks

/-- A call that was made on a record: what was asked for, the state that was found, and the answer. -/
structure Verdict where
  transition : Transition
  before : RunState
  moved : Bool
deriving DecidableEq, Repr

namespace Verdict

/-- The call ended the run. -/
def decisive (v : Verdict) : Bool := v.transition.ends && v.moved

/-- The call counted a finished segment of a run that had not ended. -/
def counted (v : Verdict) : Bool := decide (v.transition = .countSegment ∧ v.before.status.isTerminal = false)

end Verdict

/-- The state of a run with the calls that were made on it since it was made known. -/
structure RunRecord where
  state : RunState
  verdicts : List Verdict := []
deriving DecidableEq, Repr

namespace RunRecord

def new (id : PipelineId) (segments : Nat) : RunRecord := { state := .initial id segments }

def verdict (r : RunRecord) (t : Transition) : Verdict := ⟨t, r.state, (t.act r.state).1⟩

/-- The record after one more call. -/
def ask (r : RunRecord) (t : Transition) : RunRecord := ⟨(t.act r.state).2, r.verdicts ++ [r.verdict t]⟩

/-- How many segments complete the run. -/
def goal (r : RunRecord) : Nat := max r.state.totalSegments 1

end RunRecord

/-- The records that were ever made, in their order; the place of the one that is known under a number; and the calls
that have looked up a record and have not changed it yet. -/
structure Ledger where
  records : List RunRecord := []
  known : PipelineId → Option Nat := fun _ => none
  waiting : List (Nat × Transition) := []

namespace Ledger

/-- The steps of the calls. Each one is made as a whole. -/
inductive Act where
  | init (id : PipelineId) (segments : Nat)
  | reset (id : PipelineId)
  /-- A call looks up the record that is known under its number. -/
  | look (id : PipelineId) (t : Transition)
  /-- One of the calls that found a record changes it. -/
  | settle (i : Nat)

def act (l : Ledger) : Act → Ledger
  | .init id segments =>
    match l.known id with
    | some _ => l
    | none =>
      { l with
        records := l.records ++ [.new id segments]
        known := Function.update l.known id (some l.records.length) }
  | .reset id => { l with known := Function.update l.known id none }
  | .look id t =>
    match l.known id with
    | some k => { l with waiting := l.waiting ++ [(k, t)] }
    | none => l
  | .settle i =>
    match l.waiting[i]? with
    | some (k, t) => { l with records := l.records.modify k (·.ask t), waiting := l.waiting.eraseIdx i }
    | none => l

def acts (l : Ledger) (steps : List Act) : Ledger := steps.foldl act l

/-- The ledger after these steps, from the first one on. -/
def after (steps : List Act) : Ledger := acts {} steps

end Ledger

end Pipeworks
