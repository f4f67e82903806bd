import Pipeworks.Proofs.Run.Closing
import Pipeworks.Proofs.Supervisor.AbortedRuns
import Pipeworks.Proofs.Supervisor.Clock
import Pipeworks.Proofs.Supervisor.FailedStarts
import Pipeworks.Proofs.Supervisor.Notices
import Mathlib.Data.List.Flatten

/-!
How the ends of runs are announced. Stops, aborts, monitors and events that come in end runs and send an event that
tells how, at once or by the time that they are over. Three do not: a start that could not start one of its processes,
the shutdown of the supervisor, and an abort whose record is gone when it looks for it. These end runs of which no
observer hears.
-/

namespace Pipeworks

namespace Thread

variable {env : Surroundings} {s s' : Supervisor} {t t' : Thread} {b b' : Bus}
  {id id' : PipelineId} {status : RunStatus}

theorem Meets.of_ofNext {n : Call.Next} {P : Thread × Supervisor → Prop} {b : Thread × Supervisor} (h : Meets n P)
    (hnext : ofNext n = some b) : P b := by
  cases n with
  | answer a s => exact Option.some.inj hnext ▸ h
  | later c s => exact Option.some.inj hnext ▸ h
  | wait => cases hnext

/-! ### Threads that never give notice -/

def isMute : Thread → Bool
  | calling (.stop _ _) => false
  | calling (.abort _ _) => false
  | doubting _ _ => false
  | concluding _ _ => false
  | answered (.control r) => r.status = .notFound
  | _ => true

theorem owes?_of_isMute (h : t.isMute = true) : t.owes? = none := by
  unfold owes?
  split <;> first | rfl | cases h

theorem isMute_stepShutdownAll (stage : ShutdownStage) :
    Meets (s.stepShutdownAll stage) fun (t', _) => t'.isMute = true := by
  cases stage with
  | asked =>
      rw [Supervisor.stepShutdownAll]
      split_ifs
      · trivial
      · cases s.active <;> rfl
  | ending runs u =>
      cases runs with
      | nil => rfl
      | cons run rest =>
          rw [Supervisor.stepShutdownAll]
          cases s.stepTakedown run.2 u with
          | none => trivial
          | some taken =>
              obtain ⟨_ | u', s'⟩ := taken
              · cases rest <;> rfl
              · rfl

theorem isMute_stepStatus (id : PipelineId) (run : Option (Option RunState)) :
    Meets (s.stepStatus id run) fun (t', _) => t'.isMute = true := by
  cases run with
  | none => rfl
  | some run =>
      rw [Supervisor.stepStatus]
      split_ifs
      · trivial
      · rfl

theorem isMute_step (env : Surroundings) {c : Call} (hc : c.isStart = false) (hmute : (calling c).isMute = true) :
    Meets (s.step env c) fun (t', _) => t'.isMute = true := by
  cases c with
  | start id o stage => cases hc
  | stop id stage => cases hmute
  | abort id stage => cases hmute
  | status id run => exact isMute_stepStatus id run
  | shutdownAll stage => exact isMute_stepShutdownAll stage

theorem Tells.log_of_isMute (h : Tells b t t' b') (hmute : t.isMute = true) : b'.log = b.log := by
  cases h with
  | keeps _ _ hsame _ => rw [Bus.log, hsame, Bus.log]
  | forgets => rfl
  | marks | stops => cases hmute
  | concludes howes =>
      rw [owes?_of_isMute hmute] at howes
      cases howes

/-- A thread that gives no notice sends nothing, and goes on to give none. -/
theorem Does.mute (h : Does env s t t' s') (hmute : t.isMute = true) : t'.isMute = true ∧ s'.bus.log = s.bus.log := by
  refine ⟨?_, h.tells.log_of_isMute hmute⟩
  cases h with
  | later hc hstep =>
      have hmutes := isMute_step (s := s) env hc hmute
      rwa [hstep] at hmutes
  | answers hc hstep =>
      have hmutes := isMute_step (s := s) env hc hmute
      rwa [hstep] at hmutes
  | doubts | joined | unknown | known | concludes => cases hmute
  | _ => rfl

/-! ### Threads that end runs -/

/-- How far a thread that has ended a run has come with the announcement, and what it has sent since. -/
inductive Aftermath (id : PipelineId) (status : RunStatus) : Thread → List Event → Prop where
  | told {r : ControlResponse} {es : List Event} : r.status ≠ .notFound → (∃ e ∈ es, e.Announces id status) →
      Aftermath id status (answered (.control r)) es
  | owed {t : Thread} : status = .aborted → t.owes? = some id → Aftermath id status t []
  | mute {t : Thread} : t.isMute = true → Aftermath id status t []

def AfterClosing (s : Supervisor) (id : PipelineId) (status : RunStatus) (t' : Thread) (s' : Supervisor) : Prop :=
  s.registry.Closes s'.registry id status → ∃ es, s'.bus.log = s.bus.log ++ es ∧ t'.Aftermath id status es

namespace AfterClosing

theorem of_registry (h : s'.registry = s.registry) : AfterClosing s id status t' s' :=
  fun hcloses => absurd (congrArg (·.get? id) h) hcloses.ne

theorem of_bus (h : s'.bus = s.bus) : AfterClosing s id status t' s' := of_registry (congrArg Bus.registry h)

end AfterClosing

/-- A stop that ends a run announces it by its last step. -/
theorem afterClosing_concludeStop (s : Supervisor) (id' : PipelineId) :
    AfterClosing s id status (answered (s.concludeStop id').1) (s.concludeStop id').2 := by
  rw [Supervisor.concludeStop]
  dsimp only
  split_ifs with hmoved
  · intro h
    obtain ⟨rfl, rfl, -⟩ := h.call (t := .abort "Pipeline stopped")
    refine ⟨[Event.announcement id Event.stopped "Pipeline stopped"], Array.toList_push, .told (by simp) ?_⟩
    exact ⟨_, List.mem_singleton_self _, rfl, rfl⟩
  · intro h
    exact absurd (h.call (t := .abort "Pipeline stopped")).2.2 hmoved

theorem afterClosing_stepStop (id' : PipelineId) (stage : StopStage) :
    Meets (s.stepStop id' stage) fun (t', s') => AfterClosing s id status t' s' := by
  cases stage with
  | asked =>
      rw [Supervisor.stepStop]
      split_ifs
      · trivial
      · cases s.generation? id' with
        | none => exact .of_bus rfl
        | some g => exact .of_bus rfl
  | ending g u =>
      rw [Supervisor.stepStop]
      cases hstep : s.stepTakedown g u with
      | none => trivial
      | some taken =>
          have hbus := Supervisor.bus_stepTakedown hstep
          obtain ⟨_ | u', s₁⟩ := taken
          · have hafter : AfterClosing s₁ id status _ _ := afterClosing_concludeStop s₁ id'
            rw [AfterClosing, Supervisor.registry, hbus] at hafter
            exact hafter
          · exact .of_bus hbus

/-- An abort that ends a run does so by its first step, and owes the notice then. -/
theorem afterClosing_stepAbort (id' : PipelineId) (stage : AbortStage) :
    Meets (s.stepAbort id' stage) fun (t', s') => AfterClosing s id status t' s' := by
  cases stage with
  | asked =>
      intro h
      obtain ⟨rfl, rfl, hmoved⟩ := h.call (t := .abort "Pipeline aborted")
      have hmoved : (s.registry.abort id).1 = true := hmoved
      refine ⟨[], (List.append_nil _).symm, .owed rfl ?_⟩
      change (calling (.abort id (.marked (s.registry.abort id).1))).owes? = some id
      rw [hmoved]
      rfl
  | marked moved =>
      rw [Supervisor.stepAbort]
      split_ifs
      · trivial
      · cases s.generation? id' with
        | some g => exact .of_bus rfl
        | none =>
            dsimp only
            split
            · exact .of_bus rfl
            · exact .of_registry (Supervisor.registry_concludeAbort s id' moved)
  | ending moved g u =>
      rw [Supervisor.stepAbort]
      cases hstep : s.stepTakedown g u with
      | none => trivial
      | some taken =>
          have hsame := Supervisor.registry_stepTakedown hstep
          obtain ⟨_ | u', s₁⟩ := taken
          · exact .of_registry ((Supervisor.registry_concludeAbort s₁ id' moved).trans hsame)
          · exact .of_registry hsame

theorem afterClosing_step (s : Supervisor) (id : PipelineId) (status : RunStatus) (env : Surroundings) {c : Call}
    (hmute : (calling c).isMute ≠ true) :
    Meets (s.step env c) fun (t', s') => AfterClosing s id status t' s' := by
  cases c with
  | stop id' stage => exact afterClosing_stepStop id' stage
  | abort id' stage => exact afterClosing_stepAbort id' stage
  | _ => exact absurd rfl hmute

/-- Whichever thread ends a run by a step: it has announced this, or owes the notice, or gives none. -/
theorem Does.afterClosing (h : Does env s t t' s') : AfterClosing s id status t' s' := by
  by_cases hmute : t.isMute = true
  · obtain ⟨hmute, hlog⟩ := h.mute hmute
    exact fun _ => ⟨[], hlog.trans (List.append_nil _).symm, .mute hmute⟩
  cases h with
  | later _ hstep =>
      have hafter := afterClosing_step s id status env hmute
      rwa [hstep] at hafter
  | answers _ hstep =>
      have hafter := afterClosing_step s id status env hmute
      rwa [hstep] at hafter
  | joined hstep => exact .of_bus (Supervisor.bus_stepTakedown hstep)
  | concludes => exact .of_registry (Supervisor.registry_concludeAbort s _ _)
  | doubts | unknown | known => exact .of_bus rfl
  | _ => exact absurd rfl hmute

/-! ### Threads that have ended runs -/

theorem aftermath_concludeAbort (s : Supervisor) (id : PipelineId) :
    ∃ es, (s.concludeAbort id true).2.bus.log = s.bus.log ++ es ∧
      (answered (s.concludeAbort id true).1).Aftermath id .aborted es :=
  ⟨[Event.announcement id Event.aborted "Pipeline aborted"], Array.toList_push,
    .told (by simp) ⟨_, List.mem_singleton_self _, rfl, rfl⟩⟩

/-- An abort that looks for an active generation goes on to owe its notice, or gives it; if it finds neither a
generation nor a record, it says so and gives none. -/
theorem aftermath_stepAbort (id : PipelineId) :
    Meets (s.stepAbort id (.marked true)) fun (t', s') =>
      ∃ es, s'.bus.log = s.bus.log ++ es ∧ t'.Aftermath id .aborted es := by
  rw [Supervisor.stepAbort]
  split_ifs
  · trivial
  · cases s.generation? id with
    | some g => exact ⟨[], (List.append_nil _).symm, .owed rfl rfl⟩
    | none =>
        dsimp only
        split
        · exact ⟨[], (List.append_nil _).symm, .mute rfl⟩
        · exact aftermath_concludeAbort s id

theorem aftermath_of_owes (howes : t.owes? = some id) (hstep : t.step env s = some (t', s')) :
    ∃ es, s'.bus.log = s.bus.log ++ es ∧ t'.Aftermath id .aborted es := by
  have howed {t' : Thread} {s' : Supervisor} (hbus : s'.bus = s.bus) (h : t'.owes? = some id) :
      ∃ es, s'.bus.log = s.bus.log ++ es ∧ t'.Aftermath id .aborted es :=
    ⟨[], by rw [hbus, List.append_nil], .owed rfl h⟩
  unfold owes? at howes
  split at howes <;> cases howes
  · rw [step, stepAbort] at hstep
    split_ifs at hstep
    · obtain ⟨rfl, rfl⟩ := Prod.mk.inj (Option.some.inj hstep)
      exact howed rfl rfl
    · exact (aftermath_stepAbort id).of_ofNext hstep
  · rename_i g u
    rw [step, stepAbort] at hstep
    cases htakedown : s.stepTakedown g u with
    | none =>
        rw [htakedown] at hstep
        cases hstep
    | some taken =>
        rw [htakedown] at hstep
        have hbus := Supervisor.bus_stepTakedown htakedown
        obtain ⟨_ | u', s₁⟩ := taken <;> obtain ⟨rfl, rfl⟩ := Prod.mk.inj (Option.some.inj hstep) <;>
          exact howed hbus rfl
  · rw [step] at hstep
    split at hstep <;> obtain ⟨rfl, rfl⟩ := Prod.mk.inj (Option.some.inj hstep)
    · exact ⟨[], (List.append_nil _).symm, .mute rfl⟩
    · exact howed rfl rfl
  · obtain ⟨rfl, rfl⟩ := Prod.mk.inj (Option.some.inj hstep)
    exact aftermath_concludeAbort s id

theorem Aftermath.step {es : List Event} (h : t.Aftermath id status es) (hstep : t.step env s = some (t', s')) :
    ∃ es', s'.bus.log = s.bus.log ++ es' ∧ t'.Aftermath id status (es ++ es') := by
  cases h with
  | told => cases hstep
  | owed hstatus howes =>
      subst hstatus
      exact aftermath_of_owes howes hstep
  | mute hmute =>
      obtain ⟨hmute, hlog⟩ := (does_step hstep).mute hmute
      exact ⟨[], hlog.trans (List.append_nil _).symm, .mute hmute⟩

end Thread

/-! ### Monitors -/

inductive Monitor.Aftermath (pipeline id : PipelineId) (status : RunStatus) : Monitor → List Event → Prop where
  | told {m : Monitor} {es : List Event} : (∃ e ∈ es, e.Announces id status) → Aftermath pipeline id status m es
  | failing {segment : Nat} {message : String} {t : Teardown} {es : List Event} : pipeline = id → status = .failed →
      Aftermath pipeline id status (.failing segment message t) es

namespace Supervisor

variable {s s' : Supervisor} {g : Nat} {x : Generation} {m : Monitor} {id : PipelineId} {status : RunStatus}

theorem log_ingest (s : Supervisor) (e : Event) :
    (s.ingest e).2.bus.log = s.bus.log ++ s.bus.contribution (.ingest e) := s.bus.toList_sent_act (.ingest e)

theorem Tick.log (h : Tick s g x s' m) : ∃ es, s'.bus.log = s.bus.log ++ es := by
  rcases h.bus with ⟨-, hsame⟩ | ⟨es, -, hbus⟩
  · exact ⟨[], by rw [Bus.log, hsame, List.append_nil, Bus.log]⟩
  · exact ⟨_, (congrArg Bus.log hbus).trans (Bus.toList_sent_acts _ _)⟩

/-- A monitor that ends a run has announced this by the same step, or it has found a process that died and announces
that when the others are gone. -/
theorem Tick.aftermath (h : Tick s g x s' m) (hcloses : s.registry.Closes s'.registry id status) :
    ∃ es, s'.bus.log = s.bus.log ++ es ∧ m.Aftermath x.pipeline id status es := by
  cases h with
  | @finds deadline _ _ _ message _ _ _ =>
      obtain ⟨rfl, rfl, -⟩ := hcloses.call (t := .fail message)
      exact ⟨[], (List.append_nil _).symm, .failing rfl rfl⟩
  | stops _ hnext =>
      obtain ⟨ps, rfl⟩ := eq_of_next_later hnext
      exact absurd rfl hcloses.ne
  | fails => exact ⟨_, log_ingest _ _, .told (Bus.announces_ingest hcloses)⟩
  | completes =>
      obtain ⟨es, -, hbus⟩ := bus_reportCompletion (s.endMonitor g) x
      rw [registry, registry, hbus] at hcloses
      exact ⟨_, (congrArg Bus.log hbus).trans (Bus.toList_sent_acts _ _), .told (Bus.announces_acts hcloses)⟩
  | _ => exact absurd rfl hcloses.ne

theorem Tick.aftermath_of (h : Tick s g x s' m) {es : List Event}
    (hafter : x.monitor.Aftermath x.pipeline id status es) :
    ∃ es', s'.bus.log = s.bus.log ++ es' ∧ m.Aftermath x.pipeline id status (es ++ es') := by
  generalize hmonitor : x.monitor = m₀ at hafter
  cases hafter with
  | told htold =>
      obtain ⟨es', hlog⟩ := h.log
      obtain ⟨e, he, hannounces⟩ := htold
      exact ⟨es', hlog, .told ⟨e, List.mem_append_left _ he, hannounces⟩⟩
  | @failing segment message _ _ hpipeline hstatus =>
      subst hpipeline hstatus
      cases h with
      | stops _ hnext =>
          obtain ⟨ps, rfl⟩ := eq_of_next_later hnext
          rw [hmonitor]
          exact ⟨[], (List.append_nil _).symm, .failing rfl rfl⟩
      | fails hfailing =>
          obtain ⟨rfl, rfl, -⟩ := Monitor.failing.inj (hmonitor.symm.trans hfailing)
          refine ⟨_, log_ingest _ _, .told ⟨Monitor.crashEvent x.pipeline segment message, ?_, rfl, rfl⟩⟩
          exact List.mem_append_right _ (Bus.mem_contribution rfl _)
      | begins h | quits h | wakes h | finds h | elapses h | sleeps h | claims h | drains h | leaves h | turns h
        | completes h => cases hmonitor.symm.trans h

end Supervisor

namespace Threads

/-! ### Operations -/

/-- Who may end a run: a call, the monitor of a generation, or somebody who sends an event. -/
inductive Operation where
  | call (k : Nat)
  | watch (g : Nat)
  | report
deriving DecidableEq

def operation? : Move → Option Operation
  | .proceed k _ => some (.call k)
  | .watch g _ => some (.watch g)
  | .ingest _ => some .report
  | _ => none

variable {config : Config} {x x' : Threads} {m : Move} {d : Deed} {τ later : List Deed} {o : Operation} {k g : Nat}
  {t : Thread} {es : List Event} {id : PipelineId} {status : RunStatus}

def IsOver (x : Threads) : Operation → Prop
  | .call k => ∃ a, x.threads[k]? = some (.answered a)
  | .watch g => ∃ y, x.supervisor.generations[g]? = some y ∧ y.monitor.isOver = true
  | .report => True

def IsMute (x : Threads) : Operation → Prop
  | .call k => ∃ t, x.threads[k]? = some t ∧ t.isMute = true
  | _ => False

def Deed.Closes (d : Deed) (id : PipelineId) (status : RunStatus) : Prop :=
  d.before.supervisor.registry.Closes d.after.supervisor.registry id status

def sent (o : Operation) (τ : List Deed) : List Event :=
  (τ.filter fun d => operation? d.move = some o).flatMap Deed.published

theorem sent_append (o : Operation) (τ ρ : List Deed) : sent o (τ ++ ρ) = sent o τ ++ sent o ρ := by
  rw [sent, List.filter_append, List.flatMap_append]
  rfl

theorem sent_of_eq (h : operation? d.move = some o) : sent o [d] = d.published := by
  rw [sent, List.filter_cons_of_pos (by simpa using h), List.filter_nil, List.flatMap_singleton]

theorem sent_of_ne (h : operation? d.move ≠ some o) : sent o [d] = [] := by
  rw [sent, List.filter_cons_of_neg (by simpa using h)]
  rfl

theorem sent_sublist (o : Operation) (τ : List Deed) : (sent o τ).Sublist (τ.flatMap Deed.published) :=
  List.filter_sublist.flatMap _

/-! ### One move -/

inductive Aftermath (x : Threads) (id : PipelineId) (status : RunStatus) : Operation → List Event → Prop where
  | call {k : Nat} {t : Thread} {es : List Event} : x.threads[k]? = some t → t.Aftermath id status es →
      Aftermath x id status (.call k) es
  | watch {g : Nat} {y : Generation} {es : List Event} : x.supervisor.cores[g]? = some y →
      y.monitor.Aftermath y.pipeline id status es → Aftermath x id status (.watch g) es
  | report {es : List Event} : (∃ e ∈ es, e.Announces id status) → Aftermath x id status .report es

theorem aftermath_of_play (hplay : x.play m = some x') (hcloses : Deed.Closes ⟨x, m, x'⟩ id status) :
    ∃ o, operation? m = some o ∧ x'.Aftermath id status o (Deed.published ⟨x, m, x'⟩) := by
  have hsame {x' : Threads} (h : x'.supervisor.bus = x.supervisor.bus) : ¬Deed.Closes ⟨x, m, x'⟩ id status :=
    fun hcloses => hcloses.ne (congrArg (·.registry.get? id) h)
  cases m with
  | ask c =>
      rw [play] at hplay
      split_ifs at hplay
      obtain rfl := Option.some.inj hplay
      exact absurd hcloses (hsame rfl)
  | proceed k env =>
      obtain ⟨t, t', ht, hstep, hthreads⟩ := proceed_eq_some hplay
      obtain ⟨es, hlog, hafter⟩ := (Thread.does_step hstep).afterClosing hcloses
      rw [Deed.published_eq (d := ⟨x, _, x'⟩) hlog]
      refine ⟨_, rfl, .call ?_ hafter⟩
      rw [hthreads]
      exact List.getElem?_set_self (List.getElem?_eq_some_iff.mp ht).1
  | giveUp k => cases hplay
  | watch g timerFirst =>
      obtain ⟨s', hs', rfl⟩ := Option.map_eq_some_iff.mp hplay
      obtain ⟨y, stage, hy, htick⟩ := Supervisor.exists_tick hs'
      obtain ⟨es, hlog, hafter⟩ := htick.aftermath hcloses
      obtain ⟨held, hbecomes⟩ := htick.becomes hy
      rw [Deed.published_eq (d := ⟨x, _, { x with supervisor := s' }⟩) hlog]
      exact ⟨_, rfl, .watch (Supervisor.getElem?_cores hbecomes) hafter⟩
  | pass time =>
      obtain rfl := Option.some.inj hplay
      exact absurd hcloses (hsame rfl)
  | signal process number =>
      obtain rfl := Option.some.inj hplay
      exact absurd hcloses (hsame rfl)
  | ingest e =>
      obtain rfl := Option.some.inj hplay
      rw [Deed.published_eq (d := ⟨x, _, { x with supervisor := (x.supervisor.ingest e).2 }⟩)
        (x.supervisor.log_ingest e)]
      exact ⟨_, rfl, .report (Bus.announces_ingest hcloses)⟩

theorem thread_of_play (hplay : x.play m = some x') (hother : operation? m ≠ some (.call k))
    (ht : x.threads[k]? = some t) : x'.threads[k]? = some t := by
  cases happens_of_play hplay with
  | asks => rwa [List.getElem?_append_left (List.getElem?_eq_some_iff.mp ht).1]
  | @goes l env u u' s' =>
      have hne : l ≠ k := fun h => hother (congrArg (fun j => some (Operation.call j)) h)
      rwa [List.getElem?_set_ne hne]
  | drifts => exact ht

/-- The operation goes on with the announcement, and is not kept from it by what others do. -/
theorem Aftermath.play (h : x.Aftermath id status o es) (hplay : x.play m = some x') :
    x'.Aftermath id status o (es ++ sent o [⟨x, m, x'⟩]) := by
  cases h with
  | @call k t _ ht hafter =>
      -- its own step goes on with the announcement; the steps of others send nothing of it
      by_cases hown : operation? m = some (.call k)
      · rw [sent_of_eq (d := ⟨x, m, x'⟩) hown]
        cases m <;> cases hown
        obtain ⟨u, t', hu, hstep, hthreads⟩ := proceed_eq_some hplay
        obtain rfl := Option.some.inj (hu.symm.trans ht)
        obtain ⟨es', hlog, hafter⟩ := hafter.step hstep
        rw [Deed.published_eq (d := ⟨x, _, x'⟩) hlog]
        refine .call ?_ hafter
        rw [hthreads]
        exact List.getElem?_set_self (List.getElem?_eq_some_iff.mp ht).1
      · rw [sent_of_ne (d := ⟨x, m, x'⟩) hown, List.append_nil]
        exact .call (thread_of_play hplay hown ht) hafter
  | @watch g y _ hy hafter =>
      have hother (hm : ∀ timerFirst, m ≠ .watch g timerFirst) : sent (.watch g) [⟨x, m, x'⟩] = [] := by
        refine sent_of_ne (d := ⟨x, m, x'⟩) fun hown => ?_
        cases m <;> cases hown
        exact hm _ rfl
      cases affects_of_play g hplay with
      | @ticks timerFirst z stage hm hz htick =>
          obtain rfl := Option.some.inj ((Supervisor.getElem?_cores hz).symm.trans hy)
          obtain ⟨es', hlog, hafter⟩ := htick.aftermath_of hafter
          obtain ⟨held, hbecomes⟩ := htick.becomes hz
          rw [sent_of_eq (d := ⟨x, m, x'⟩) (congrArg operation? hm), Deed.published_eq (d := ⟨x, m, x'⟩) hlog]
          exact .watch (Supervisor.getElem?_cores hbecomes) hafter
      | stays hm hsame =>
          rw [hother hm, List.append_nil]
          exact .watch (hsame.trans hy) hafter
      | appears _ hnone _ =>
          rw [hnone] at hy
          cases hy
  | report htold =>
      obtain ⟨e, he, hannounces⟩ := htold
      exact .report ⟨e, List.mem_append_left _ he, hannounces⟩

/-- An operation that is over has announced the end, unless it gives no notice. -/
theorem Aftermath.announces_iff (h : x.Aftermath id status o es) (hover : x.IsOver o) :
    (∃ e ∈ es, e.Announces id status) ↔ ¬x.IsMute o := by
  cases h with
  | @call k t _ ht hafter =>
      obtain ⟨a, ha⟩ := hover
      obtain rfl := Option.some.inj (ht.symm.trans ha)
      have hmute : x.IsMute (.call k) ↔ (Thread.answered a).isMute = true := by
        refine ⟨?_, fun hmute => ⟨_, ht, hmute⟩⟩
        rintro ⟨t, ht', hmute⟩
        rwa [Option.some.inj (ht.symm.trans ht')]
      rw [hmute]
      cases hafter with
      | told hr htold => exact iff_of_true htold (by simpa [Thread.isMute] using hr)
      | owed _ howes => cases howes
      | mute hmute => exact iff_of_false (by simp) (not_not.mpr hmute)
  | @watch g y _ hy hafter =>
      obtain ⟨z, hz, hended⟩ := hover
      obtain rfl := Option.some.inj ((Supervisor.getElem?_cores hz).symm.trans hy)
      refine iff_of_true ?_ not_false
      generalize hmonitor : z.core.monitor = m at hafter
      cases hafter with
      | told htold => exact htold
      | failing =>
          have hmonitor : z.monitor = _ := hmonitor
          rw [hmonitor] at hended
          cases hended
  | report htold => exact iff_of_true htold not_false

/-! ### Histories -/

theorem History.of_concat (h : History config (τ ++ [d]) x) :
    History config τ d.before ∧ d.before.play d.move = some x ∧ d.after = x := by
  generalize hall : τ ++ [d] = ρ at h
  cases h with
  | start => exact absurd hall (by simp)
  | move h hplay =>
      obtain ⟨rfl, hlast⟩ := List.append_inj' hall rfl
      obtain rfl := List.singleton_inj.mp hlast
      exact ⟨h, hplay, rfl⟩

theorem History.until (h : History config (τ ++ d :: later) x) : History config τ d.before := by
  induction later using List.reverseRecOn generalizing x with
  | nil => exact h.of_concat.1
  | append_singleton later d' ih =>
      rw [← List.cons_append, ← List.append_assoc] at h
      exact ih h.of_concat.1

theorem History.log (h : History config τ x) : x.supervisor.bus.log = τ.flatMap Deed.published := by
  induction h with
  | start => rfl
  | @move τ x x' m _ hplay ih =>
      obtain ⟨⟨es, hlog⟩, -⟩ := holds_play hplay
      rw [List.flatMap_append, List.flatMap_singleton, Deed.published_eq (d := ⟨x, m, x'⟩) hlog, ← ih, hlog]

theorem History.aftermath (h : History config (τ ++ d :: later) x) (hcloses : d.Closes id status) :
    ∃ o, operation? d.move = some o ∧ x.Aftermath id status o (sent o (d :: later)) := by
  induction later using List.reverseRecOn generalizing x with
  | nil =>
      obtain ⟨-, hplay, rfl⟩ := h.of_concat
      obtain ⟨o, ho, hafter⟩ := aftermath_of_play hplay hcloses
      exact ⟨o, ho, (sent_of_eq ho).symm ▸ hafter⟩
  | append_singleton later d' ih =>
      rw [← List.cons_append, ← List.append_assoc] at h
      obtain ⟨hbefore, hplay, rfl⟩ := h.of_concat
      obtain ⟨o, ho, hafter⟩ := ih hbefore
      refine ⟨o, ho, ?_⟩
      rw [← List.cons_append, sent_append]
      exact hafter.play hplay

/-- Who ends a run announces this to all observers by the time that it is over, with an event of the pipeline that tells
how the run has ended, whatever calls, monitors and senders of events do meanwhile; unless it is a call that gives no
notice, and then it never does: a start, a shutdown, or an abort that was told that there is no run. -/
theorem ends_announced_unless_mute (h : History config (τ ++ d :: later) x) (hcloses : d.Closes id status) :
    ∃ o, operation? d.move = some o ∧
      (x.IsOver o → ((∃ e ∈ sent o (d :: later), e.Announces id status) ↔ ¬x.IsMute o)) ∧
      ∃ es, x.supervisor.bus.log = d.before.supervisor.bus.log ++ es ∧ (sent o (d :: later)).Sublist es := by
  obtain ⟨o, ho, hafter⟩ := h.aftermath hcloses
  refine ⟨o, ho, hafter.announces_iff, (d :: later).flatMap Deed.published, ?_, sent_sublist o _⟩
  rw [h.log, h.until.log, List.flatMap_append]

theorem History.of_plays {earlier more : List Move} {w w' : Threads}
    (hw : earlier.foldlM play (ofConfig config) = some w) (hplay : w.play m = some w')
    (hx : more.foldlM play w' = some x) :
    History config ((ofConfig config).trace earlier ++ ⟨w, m, w'⟩ :: w'.trace more) x := by
  have h := ((History.start.plays earlier hw).move hplay).plays more hx
  rwa [List.nil_append, List.append_assoc] at h

/-- The abort ends the run by its first step, and gives notice by its last one. -/
theorem settled_end_announced : ∃ τ d later x, History {} (τ ++ d :: later) x ∧ d.Closes 1 .aborted ∧
    operation? d.move = some (.call 1) ∧ x.IsOver (.call 1) ∧
      ∃ e ∈ sent (.call 1) (d :: later), e.Announces 1 .aborted := by
  obtain ⟨w, w', x, hw, hplay, hx, hbefore, hafter, hover⟩ : ∃ w w' x, settled.foldlM play (ofConfig {}) = some w ∧
      w.play (.proceed 1 Scene.calm) = some w' ∧ windingUp.tail.foldlM play w' = some x ∧
      w.supervisor.bus.status? 1 = some .starting ∧ w'.supervisor.bus.status? 1 = some .aborted ∧
      x.threads[1]? = some (.answered (.control ⟨1, .aborted, "Pipeline aborted"⟩)) :=
    ⟨_, _, _, rfl, rfl, rfl, rfl, rfl, rfl⟩
  have h := History.of_plays hw hplay hx
  have hcloses : Deed.Closes ⟨w, .proceed 1 Scene.calm, w'⟩ 1 .aborted := .of_status? hbefore rfl hafter rfl
  obtain ⟨o, ho, hannounces, -⟩ := ends_announced_unless_mute h hcloses
  obtain rfl : .call 1 = o := Option.some.inj ho
  refine ⟨_, _, _, x, h, hcloses, rfl, ⟨_, hover⟩, (hannounces ⟨_, hover⟩).mpr ?_⟩
  rintro ⟨t, ht, hmute⟩
  obtain rfl := Option.some.inj (hover.symm.trans ht)
  cases hmute

/-- A call has ended a run and come to its answer, and no event ever told of it. -/
def EndsUnheard (config : Config) (id : PipelineId) (status : RunStatus) (a : Answer) : Prop :=
  ∃ τ d later x k, History config (τ ++ d :: later) x ∧ d.Closes id status ∧ operation? d.move = some (.call k) ∧
    x.threads[k]? = some (.answered a) ∧ ∀ e ∈ x.supervisor.bus.log, ¬e.Announces id status

theorem endsUnheard_of_plays (earlier more : List Move) (k : Nat) (env : Surroundings) {a : Answer}
    (hended : status.isTerminal = true)
    (h : ∃ w w' x, earlier.foldlM play (ofConfig config) = some w ∧ w.play (.proceed k env) = some w' ∧
      more.foldlM play w' = some x ∧ w.supervisor.bus.status? id = some .starting ∧
      w'.supervisor.bus.status? id = some status ∧ x.threads[k]? = some (.answered a) ∧ x.supervisor.bus.log = []) :
    EndsUnheard config id status a := by
  obtain ⟨w, w', x, hw, hplay, hx, hbefore, hafter, hover, hlog⟩ := h
  refine ⟨_, _, _, x, k, .of_plays hw hplay hx, .of_status? hbefore rfl hafter hended, rfl, hover, ?_⟩
  rw [hlog]
  exact List.forall_mem_nil _

/-- The three calls that end runs of which nobody hears. A start cannot start its second process, shuts the first one
down again and fails the run; a shutdown ends the run that is active; and an abort has aborted a run, but before it goes
on a stop takes the run off the active ones and another start forgets its record. -/
theorem calls_end_unheard :
    (∃ e, EndsUnheard {} 1 .failed (.started (.error e))) ∧ EndsUnheard {} 1 .aborted .done ∧
      EndsUnheard {} 1 .aborted (.control ⟨1, .notFound, "No run found for pipeline 1"⟩) := by
  refine ⟨⟨_, endsUnheard_of_plays
      (.ask (.startOf 1 ⟨none, none⟩) :: List.replicate 12 (.proceed 0 balky)) [.proceed 0 balky] 0 balky
      rfl ⟨_, _, _, rfl, rfl, rfl, rfl, rfl, rfl, rfl⟩⟩, ?_, ?_⟩
  · exact endsUnheard_of_plays (.ask (.startOf 1 ⟨none, none⟩) :: List.replicate 11 (.proceed 0 Scene.calm) ++
        [.ask .shutdown, .proceed 1 Scene.calm] ++ List.replicate 2 (.watch 0 false) ++
        List.replicate 4 (.proceed 1 Scene.calm)) [] 1 Scene.calm
      rfl ⟨_, _, _, rfl, rfl, rfl, rfl, rfl, rfl, rfl⟩
  · exact endsUnheard_of_plays settled ([.ask (.stopOf 1), .proceed 2 Scene.calm, .ask (.startOf 1 ⟨none, none⟩)] ++
        List.replicate 6 (.proceed 3 Scene.calm) ++ List.replicate 2 (.proceed 1 Scene.calm)) 1 Scene.calm
      rfl ⟨_, _, _, rfl, rfl, rfl, rfl, rfl, rfl, rfl⟩

/-- So not every end of a run is announced by the time that the operation is over that has ended it. -/
theorem not_every_end_announced : ¬∀ (config : Config) (τ : List Deed) (d : Deed) (later : List Deed) (x : Threads)
    (id : PipelineId) (status : RunStatus) (o : Operation), History config (τ ++ d :: later) x → d.Closes id status →
      operation? d.move = some o → x.IsOver o → ∃ e ∈ x.supervisor.bus.log, e.Announces id status := by
  intro hall
  obtain ⟨⟨e, τ, d, later, x, k, h, hcloses, ho, hover, hunheard⟩, -⟩ := calls_end_unheard
  obtain ⟨e', he', hannounces⟩ := hall {} τ d later x 1 .failed (.call k) h hcloses ho ⟨_, hover⟩
  exact hunheard e' he' hannounces

end Threads

end Pipeworks
