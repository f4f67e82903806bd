import Pipeworks.Proofs.Run.Transition
import Pipeworks.Proofs.Supervisor.Calls
import Pipeworks.Proofs.Supervisor.Steps

/-!
Who changes the record of a run. An event makes a transition of the run that it names. A monitor does so where it finds
a process that died and at the end of a shutdown that it makes; a call that ends a generation does so when the
processes are gone, unless it is an abort, which has aborted the run before. All of them name the run by its pipeline,
and none of them changes a run that has ended.
-/

namespace Pipeworks

def RunState.after (s : RunState) (ts : List Transition) : RunState := ts.foldl (fun s t => (t.act s).2) s

theorem RunState.after_of_terminal {s : RunState} (h : s.status.isTerminal = true) (ts : List Transition) :
    s.after ts = s := by
  induction ts with
  | nil => rfl
  | cons t ts ih => rwa [after, List.foldl_cons, Transition.act_of_terminal h]

theorem RunState.totalSegments_after (s : RunState) (ts : List Transition) :
    (s.after ts).totalSegments = s.totalSegments := by
  induction ts generalizing s with
  | nil => rfl
  | cons t ts ih => exact (ih _).trans (t.totalSegments_act s)

namespace Registry

variable {r r' r'' : Registry} {id id' : PipelineId}

/-- Transitions are made of the run of one pipeline, and the runs of the others are left as they are. -/
structure Turns (id : PipelineId) (ts : List Transition) (r r' : Registry) : Prop where
  own : r'.get? id = (r.get? id).map (·.after ts)
  others : ∀ id', id' ≠ id → r'.get? id' = r.get? id'

namespace Turns

variable {ts ts' : List Transition}

theorem refl (id : PipelineId) (r : Registry) : Turns id [] r r := ⟨by cases r.get? id <;> rfl, fun _ _ => rfl⟩

theorem trans (h : Turns id ts r r') (h' : Turns id ts' r' r'') : Turns id (ts ++ ts') r r'' := by
  refine ⟨?_, fun id' hid => (h'.others id' hid).trans (h.others id' hid)⟩
  rw [h'.own, h.own, Option.map_map]
  congr 1
  funext s
  exact List.foldl_append.symm

theorem call (t : Transition) (r : Registry) (id : PipelineId) : Turns id [t] r (t.call r id).2 := by
  refine ⟨?_, fun id' hid => ?_⟩
  · rw [Transition.get?_call, if_pos rfl]
    rfl
  · rw [Transition.get?_call, if_neg hid]

theorem of_ne (h : Turns id ts r r') (hne : r'.get? id' ≠ r.get? id') :
    id' = id ∧ ∃ s, r.get? id = some s ∧ s.status.isTerminal = false ∧ r'.get? id = some (s.after ts) := by
  have hid : id' = id := by
    by_contra hid
    exact hne (h.others id' hid)
  subst hid
  have hown := h.own
  cases hs : r.get? id' with
  | none => exact absurd (by rw [hown, hs, Option.map_none]) hne
  | some s =>
      rw [hs, Option.map_some] at hown
      refine ⟨rfl, s, rfl, Bool.eq_false_iff.mpr fun hterminal => hne ?_, hown⟩
      rw [hown, hs, RunState.after_of_terminal hterminal]

end Turns

end Registry

/-! ### Events -/

def Event.asks (e : Event) : List Transition :=
  if e.category ≠ .lifecycle then []
  else if e.kind = segmentStarted then [.markRunning]
  else if e.kind = segmentCompleted then [.countSegment]
  else if e.kind = failed then [.fail e.message]
  else if e.kind = aborted then [.abort "Pipeline aborted"]
  else []

namespace Bus

theorem turns_apply {e : Event} (h : e.category = .lifecycle) (r : Registry) :
    r.Turns e.run e.asks (apply r e).2 := by
  rw [apply, Event.asks, if_neg (not_not.mpr h)]
  split_ifs
  · exact .call .markRunning r e.run
  · exact .call .countSegment r e.run
  · exact .call (.fail e.message) r e.run
  · exact .call (.abort "Pipeline aborted") r e.run
  · exact .refl e.run r

theorem turns_ingest (b : Bus) (e : Event) : b.registry.Turns e.run e.asks (b.ingest e).2.registry := by
  rw [ingest]
  cases hcategory : e.category with
  | unknown =>
      rw [Event.asks, if_pos (by simp [hcategory])]
      exact .refl e.run _
  | stream =>
      rw [Event.asks, if_pos (by simp [hcategory])]
      exact .refl e.run _
  | lifecycle =>
      have hregistry : ∀ (completed : Bool) (b : Bus),
          (if completed then b.publish (completion e.run) else b).registry = b.registry := by
        intro completed b
        cases completed <;> rfl
      dsimp only
      rw [hregistry]
      exact turns_apply hcategory b.registry

end Bus

/-! ### Monitors -/

/-- What the monitor of a generation asks of the run, at the stages at which it reports, whether it was cancelled or
not: it fails the run as it finds a process that died, and again when the others are gone; and when all processes are
gone at the end of its time, it counts a segment for each worker. -/
inductive Generation.Reports (x : Generation) : List Transition → Prop where
  | found {deadline : Option Moment} (message : String) : x.monitor = .checking deadline → Reports x [.fail message]
  | failed {segment : Nat} {message : String} {t : Teardown} : x.monitor = .failing segment message t →
      Reports x [.fail message]
  | completed {t : Teardown} : x.monitor = .endingWorkers t →
      Reports x (List.replicate (x.members.filter fun m => !m.isProducer).length .countSegment)

namespace Supervisor

variable {s s' : Supervisor} {g : Nat} {x : Generation}

theorem turns_ingest (s : Supervisor) (e : Event) : s.registry.Turns e.run e.asks (s.ingest e).2.registry :=
  s.bus.turns_ingest e

theorem turns_reportCompletion (s : Supervisor) (x : Generation) :
    s.registry.Turns x.pipeline (List.replicate (x.members.filter fun m => !m.isProducer).length .countSegment)
      (s.reportCompletion x).registry := by
  rw [reportCompletion]
  generalize x.members.filter (fun m => !m.isProducer) = ms
  induction ms generalizing s with
  | nil => exact .refl _ _
  | cons m ms ih => exact (turns_ingest s (Monitor.completionEvent x.pipeline m.segment)).trans (ih _)

/-- A monitor that looks for a process that died leaves the records as they are if it finds none. -/
theorem turns_checkForCrash (s : Supervisor) (g : Nat) (x : Generation) (deadline : Option Moment) :
    (s.checkForCrash g x deadline).registry = s.registry ∨
      ∃ message, s.registry.Turns x.pipeline [.fail message] (s.checkForCrash g x deadline).registry := by
  rw [checkForCrash]
  split
  split
  · exact .inr ⟨_, .call (.fail _) s.registry x.pipeline⟩
  · exact .inl rfl

theorem turns_stepMonitor (hx : s.generations[g]? = some x) {timerFirst : Bool}
    (h : s.stepMonitor g timerFirst = some s') :
    s'.registry = s.registry ∨ ∃ ts, x.Reports ts ∧ s.registry.Turns x.pipeline ts s'.registry := by
  obtain ⟨ps, m, rfl⟩ | ⟨held, m, rfl⟩ | ⟨deadline, hmonitor, rfl⟩ | ⟨segment, message, t, hmonitor, rfl⟩ |
      ⟨t, hmonitor, rfl⟩ := stepMonitor_cases hx h
  · exact .inl rfl
  · exact .inl rfl
  · rcases turns_checkForCrash s g x deadline with hsame | ⟨message, hturns⟩
    · exact .inl hsame
    · exact .inr ⟨_, .found message hmonitor, hturns⟩
  · exact .inr ⟨_, .failed hmonitor, turns_ingest (s.endMonitor g) (Monitor.crashEvent x.pipeline segment message)⟩
  · exact .inr ⟨_, .completed hmonitor, turns_reportCompletion (s.endMonitor g) x⟩

/-! ### Calls that end generations -/

theorem bus_stepTakedown {t : Takedown} {t' : Option Takedown} (h : s.stepTakedown g t = some (t', s')) :
    s'.bus = s.bus := by
  obtain ⟨ps, rfl⟩ | ⟨held, rfl⟩ := stepTakedown_cases h <;> rfl

theorem registry_stepTakedown {t : Takedown} {t' : Option Takedown} (h : s.stepTakedown g t = some (t', s')) :
    s'.registry = s.registry := congrArg Bus.registry (bus_stepTakedown h)

theorem turns_concludeStop (s : Supervisor) (id : PipelineId) :
    s.registry.Turns id [.abort "Pipeline stopped"] (s.concludeStop id).2.registry := by
  have hcall := Registry.Turns.call (.abort "Pipeline stopped") s.registry id
  rw [concludeStop]
  dsimp only
  split_ifs <;> exact hcall

theorem registry_concludeAbort (s : Supervisor) (id : PipelineId) (moved : Bool) :
    (s.concludeAbort id moved).2.registry = s.registry := by
  rw [concludeAbort]
  split_ifs <;> rfl

end Supervisor

/-- The message with which a call aborts the runs whose generations it has ended. An abort has aborted the run
before. -/
def Call.farewell? : Call → Option String
  | stop _ _ => some "Pipeline stopped"
  | shutdownAll _ => some "Supervisor shut down"
  | _ => none

theorem Call.stake_eq_ending {c : Call} {id : PipelineId} {g : Nat} {t : Takedown}
    {runs : List (PipelineId × Nat × Takedown)} (h : c.stake = .ending ((id, g, t) :: runs)) :
    c = .stop id (.ending g t) ∨ (∃ moved, c = .abort id (.ending moved g t)) ∨
      ∃ rest, c = .shutdownAll (.ending ((id, g) :: rest) t) := by
  unfold Call.stake at h
  split at h <;> simp at h
  · obtain ⟨⟨rfl, rfl, rfl⟩, -⟩ := h
    exact .inl rfl
  · obtain ⟨⟨rfl, rfl, rfl⟩, -⟩ := h
    exact .inr (.inl ⟨_, rfl⟩)
  · obtain ⟨⟨rfl, rfl, rfl⟩, -⟩ := h
    exact .inr (.inr ⟨_, rfl⟩)

namespace Supervisor

variable {s s' : Supervisor} {id : PipelineId} {g : Nat} {t : Takedown}

/-- A call that is ending a generation leaves the records as they are, or ends the run of that pipeline by its last
step for that generation. -/
theorem turns_ending (s : Supervisor) (env : Surroundings) {c : Call} {runs : List (PipelineId × Nat × Takedown)}
    (hstake : c.stake = .ending ((id, g, t) :: runs)) :
    (s.step env c).Leads fun s' _ =>
      s'.registry = s.registry ∨
        (∃ s₁, s.stepTakedown g t = some (none, s₁)) ∧
          ∃ message, c.farewell? = some message ∧ s.registry.Turns id [.abort message] s'.registry := by
  obtain rfl | ⟨moved, rfl⟩ | ⟨rest, rfl⟩ := Call.stake_eq_ending hstake
  · rw [step, stepStop]
    cases hstep : s.stepTakedown g t with
    | none => trivial
    | some taken =>
        obtain ⟨_ | t', s'⟩ := taken
        · have hturns := turns_concludeStop s' id
          rw [registry_stepTakedown hstep] at hturns
          exact .inr ⟨⟨s', rfl⟩, _, rfl, hturns⟩
        · exact .inl (registry_stepTakedown hstep)
  · rw [step, stepAbort]
    cases hstep : s.stepTakedown g t with
    | none => trivial
    | some taken =>
        obtain ⟨_ | t', s'⟩ := taken
        · exact .inl ((registry_concludeAbort s' id moved).trans (registry_stepTakedown hstep))
        · exact .inl (registry_stepTakedown hstep)
  · rw [step, stepShutdownAll]
    cases hstep : s.stepTakedown g t with
    | none => trivial
    | some taken =>
        obtain ⟨_ | t', s'⟩ := taken
        · have hturns : s.registry.Turns id [.abort "Supervisor shut down"]
              (s'.registry.abort id "Supervisor shut down").2 := by
            rw [← registry_stepTakedown hstep]
            exact .call (.abort "Supervisor shut down") s'.registry id
          cases rest with
          | nil => exact .inr ⟨⟨s', rfl⟩, _, rfl, hturns⟩
          | cons run rest => exact .inr ⟨⟨s', rfl⟩, _, rfl, hturns⟩
        · exact .inl (registry_stepTakedown hstep)

end Supervisor

end Pipeworks
