import Pipeworks.Proofs.Worker.Announcement
import Pipeworks.Proofs.Supervisor.Generations
import Pipeworks.Proofs.Supervisor.Records
import Pipeworks.Proofs.Supervisor.Rest

/-!
What is left of earlier generations when a pipeline is started again. A start makes a new record for the run of its
pipeline. Events, monitors and calls name the run by the pipeline only, so the new record may be changed on behalf of
an earlier generation: by an event of one of its workers that comes in late, by its monitor, when that was at work as
the start made the record, and by a stop or a shutdown that had it in its hands then. An abort never does so, and
monitors and calls do not if the generation was at rest.
-/

namespace Pipeworks

theorem Worker.Sends.asks_eq {spec : WorkerSpec} {e : Event} (h : Worker.Sends spec e) :
    e.asks = [.markRunning] ∨ e.asks = [.fail e.message] := by
  obtain ⟨c, -, rfl⟩ | ⟨err, rfl⟩ := h.cases
  · exact .inl rfl
  · exact .inr rfl

namespace Supervisor

variable {s s' : Supervisor} {id : PipelineId}

theorem registry_spawnAll {env : Surroundings} {specs : List WorkerSpec} {ms ms' : List Member} {e : Option Error}
    (h : spawnAll env specs ms s = (e, ms', s')) : s'.registry = s.registry := by
  induction specs generalizing ms s with
  | nil =>
      obtain ⟨-, -, rfl⟩ : none = e ∧ ms = ms' ∧ s = s' := by simpa [spawnAll] using h
      rfl
  | cons spec specs ih =>
      rw [spawnAll, spawn] at h
      cases hlaunch : (env.launch s.launched.length spec).bind (Subprocess.launch spec.label s.now) with
      | error err =>
          simp only [hlaunch] at h
          obtain ⟨-, -, rfl⟩ : some err = e ∧ ms = ms' ∧ { s with launched := s.launched ++ [spec] } = s' := by
            simpa using h
          rfl
      | ok p =>
          simp only [hlaunch] at h
          exact (ih h).trans rfl

/-- What a start has done when it goes on after its validation: the run of its pipeline has a new record, the
generations that there were are still there, and it has its processes in its hands. -/
theorem launched_spec {env : Surroundings} {o : StartOptions} {graph : Graph} {c : Call}
    (h : s.step env (.start id o (.validating graph)) = .later c s') :
    (∃ segments, s'.registry.get? id = some (.initial id segments)) ∧
      (∃ gs, s'.generations = s.generations ++ gs) ∧
      ((∃ t, c.stake = .unwinding id t) ∨ ∃ g, c.stake = .enlisting id g) := by
  have hnew {r : Registry} (hr : ∃ segments, r = (s.registry.reset id).init id segments) :
      ∃ segments, r.get? id = some (.initial id segments) := by
    obtain ⟨segments, rfl⟩ := hr
    exact ⟨segments, by rw [Registry.get?_init, if_pos rfl, Registry.get?_reset, if_pos rfl, Option.getD_none]⟩
  rw [step, stepStart, validateAndLaunch] at h
  split at h
  · cases h
  · split at h
    · cases h
    · rw [launch] at h
      dsimp only at h
      split at h
      · rename_i e ms s₁ hspawn
        obtain ⟨rfl, rfl⟩ := Call.Next.later.inj h
        obtain ⟨-, hgenerations, -⟩ := spawnAll_spec hspawn
        exact ⟨hnew ⟨_, registry_spawnAll hspawn⟩, ⟨[], by rw [hgenerations]; exact (List.append_nil _).symm⟩,
          .inl ⟨_, rfl⟩⟩
      · rename_i ms s₁ hspawn
        obtain ⟨rfl, rfl⟩ := Call.Next.later.inj h
        obtain ⟨-, hgenerations, -⟩ := spawnAll_spec hspawn
        exact ⟨hnew ⟨_, registry_spawnAll hspawn⟩, ⟨_, congrArg (· ++ [_]) hgenerations⟩, .inr ⟨_, rfl⟩⟩

end Supervisor

namespace Scene

variable {config : Config} {id : PipelineId} {x x' x₀ x₁ : Scene} {m : Move} {g : Nat}

theorem exists_of_proceed {k : Nat} {env : Surroundings} {c : Call} (hplay : x.play (.proceed k env) = some x')
    (hc : x.calls[k]? = some c) {P : Supervisor → Stake → Prop} (hleads : (x.supervisor.step env c).Leads P) :
    ∃ st, P x'.supervisor st := by
  obtain ⟨c', hc', hstep⟩ := Option.bind_eq_some_iff.mp hplay
  obtain rfl := Option.some.inj (hc.symm.trans hc')
  cases hnext : x.supervisor.step env c with
  | answer a s =>
      rw [hnext] at hstep hleads
      obtain rfl := Option.some.inj hstep
      exact ⟨_, hleads⟩
  | later c' s =>
      rw [hnext] at hstep hleads
      obtain rfl := Option.some.inj hstep
      exact ⟨_, hleads⟩
  | wait =>
      rw [hnext] at hstep
      cases hstep

/-! ### Generations at rest -/

/-- A generation that is done with: its monitor is over, it is not active, and no call has it in its hands. -/
structure Rests (x : Scene) (g : Nat) : Prop where
  isOver : x.supervisor.Over g
  inactive : ∀ id, (id, g) ∉ x.supervisor.active
  untended : ∀ c ∈ x.calls, g ∉ c.stake.tended

theorem Rests.play (h : x.Rests g) (hplay : x.play m = some x') : x'.Rests g := by
  cases m with
  | ask c =>
      rw [Scene.play] at hplay
      split_ifs at hplay with hnew
      obtain rfl := Option.some.inj hplay
      refine ⟨h.isOver, h.inactive, fun c' hc' => ?_⟩
      rcases List.mem_append.mp hc' with hc' | hc'
      · exact h.untended c' hc'
      · rw [List.mem_singleton.mp hc', stake_of_isNew hnew]
        exact List.not_mem_nil
  | proceed k env =>
      obtain ⟨earlier, c, later, hcalls, hnext⟩ := proceed_eq_some hplay
      have hc : c ∈ x.calls := by simp [hcalls]
      have hothers : ∀ c' ∈ earlier ++ later, g ∉ c'.stake.tended := by
        intro c' hc'
        exact h.untended c' (by rw [hcalls]; simp only [List.mem_append, List.mem_cons] at hc' ⊢; tauto)
      -- a call takes only active generations into its hands, and this one is not active
      have hstep := Supervisor.Spared.step env c ⟨h.isOver, h.inactive, h.untended c hc⟩
      rcases hnext with ⟨a, hnext, hcalls'⟩ | ⟨c', hnext, hcalls'⟩
      · rw [hnext] at hstep
        exact ⟨hstep.isOver, hstep.inactive, fun c' hc' => hothers c' (hcalls' ▸ hc')⟩
      · rw [hnext] at hstep
        refine ⟨hstep.isOver, hstep.inactive, fun c'' hc'' => ?_⟩
        rw [hcalls', List.mem_append, List.mem_cons] at hc''
        rcases hc'' with hc'' | rfl | hc''
        · exact hothers c'' (List.mem_append_left _ hc'')
        · exact hstep.untended
        · exact hothers c'' (List.mem_append_right _ hc'')
  | giveUp k =>
      rw [Scene.play] at hplay
      split at hplay
      · rename_i id o stage _
        obtain rfl := Option.some.inj hplay
        refine ⟨h.isOver.of_generations ?_, fun id' hid => h.inactive id' ?_, fun c hc => ?_⟩
        · cases stage <;> rfl
        · cases stage <;> exact hid
        · exact h.untended c (List.mem_of_mem_eraseIdx hc)
      · cases hplay
  | watch g' timerFirst =>
      obtain ⟨s, hs, rfl⟩ := Option.map_eq_some_iff.mp hplay
      have hactive := (Supervisor.Quiet.stepMonitor hs).active
      exact ⟨h.isOver.stepMonitor hs, fun id hid => h.inactive id (hactive ▸ hid), h.untended⟩
  | pass time =>
      obtain rfl := Option.some.inj hplay
      exact ⟨h.isOver, h.inactive, h.untended⟩
  | signal process number =>
      obtain rfl := Option.some.inj hplay
      exact ⟨h.isOver, h.inactive, h.untended⟩
  | ingest e =>
      obtain rfl := Option.some.inj hplay
      exact ⟨h.isOver, h.inactive, h.untended⟩

/-! ### A start and what follows it -/

def Launches (x : Scene) (id : PipelineId) (x' : Scene) : Prop :=
  ∃ k env o graph, x.calls[k]? = some (.start id o (.validating graph)) ∧ x.play (.proceed k env) = some x' ∧
    x'.calls.length = x.calls.length

/-- Scenes that come after a start of a pipeline has made its record; `x₀` is the scene before and `x₁` the one after
the step in which it did so. -/
inductive Since (config : Config) (id : PipelineId) (x₀ x₁ : Scene) : Scene → Prop where
  | launch : Reachable config (·.isPatient = true) x₀ → x₀.Launches id x₁ → Since config id x₀ x₁ x₁
  | move {x x' : Scene} {m : Move} : Since config id x₀ x₁ x → m.isPatient = true → x.play m = some x' →
      Since config id x₀ x₁ x'

inductive Elder where
  | call
  | monitor
  | worker
deriving DecidableEq, Repr

/-- Moves on behalf of generations of a pipeline that were there at a scene: a call that has taken one out of the
active ones goes on with its end, its monitor goes on, or a lifecycle event of one of its workers comes in. -/
inductive Stale (x₀ x : Scene) (id : PipelineId) : Elder → Move → Prop where
  | call {k : Nat} {env : Surroundings} {c : Call} {id' : PipelineId} {g : Nat} {t : Takedown}
      {runs : List (PipelineId × Nat × Takedown)} : x₀.supervisor.IsOf g id → x.calls[k]? = some c →
      c.stake = .ending ((id', g, t) :: runs) → Stale x₀ x id .call (.proceed k env)
  | monitor {g : Nat} {timerFirst : Bool} : x₀.supervisor.IsOf g id → Stale x₀ x id .monitor (.watch g timerFirst)
  | worker {spec : WorkerSpec} {e : Event} : spec ∈ x₀.supervisor.launched → spec.pipeline = id →
      Worker.Sends spec e → Stale x₀ x id .worker (.ingest e)

def Unsettled (x : Scene) (g : Nat) : Prop := ¬x.supervisor.Over g ∨ ∃ c ∈ x.calls, g ∈ c.stake.tended

theorem launches_spec (h : Reachable config (·.isPatient = true) x₀) (hlaunch : x₀.Launches id x₁) :
    Reachable config (·.isPatient = true) x₁ ∧
      (∃ segments, x₁.supervisor.registry.get? id = some (.initial id segments)) ∧
      (∀ g, x₀.supervisor.IsOf g id → x₁.supervisor.IsOf g id) ∧ x₁.supervisor.Idle id := by
  obtain ⟨k, env, o, graph, hcall, hplay, hlength⟩ := hlaunch
  have hreach : Reachable config (·.isPatient = true) x₁ := h.move rfl hplay
  obtain ⟨c, hc, hstep⟩ := Option.bind_eq_some_iff.mp hplay
  obtain rfl := Option.some.inj (hcall.symm.trans hc)
  have hk : k < x₀.calls.length := (List.getElem?_eq_some_iff.mp hc).1
  split at hstep
  · -- a start that was refused is not among the calls any more
    obtain rfl := Option.some.inj hstep
    rw [List.length_eraseIdx_of_lt hk] at hlength
    omega
  · rename_i c' s hnext
    obtain rfl := Option.some.inj hstep
    obtain ⟨hrecord, ⟨gs, hgenerations⟩, hstake⟩ := Supervisor.launched_spec hnext
    refine ⟨hreach, hrecord, fun g ⟨y, hy, hid⟩ => ⟨y, ?_, hid⟩, ?_⟩
    · show s.generations[g]? = some y
      rw [hgenerations, List.getElem?_append_left (List.getElem?_eq_some_iff.mp hy).1, hy]
    · have hmem : c'.stake ∈ (x₀.calls.set k c').map Call.stake :=
        List.mem_map_of_mem (List.mem_set hk c')
      have hfits := hreach.sound.fits _ hmem
      rcases hstake with ⟨t, hstake⟩ | ⟨g, hstake⟩ <;> rw [hstake] at hfits <;> exact hfits.1
  · cases hstep

theorem Since.launches (h : Since config id x₀ x₁ x) :
    Reachable config (·.isPatient = true) x₀ ∧ x₀.Launches id x₁ := by
  induction h with
  | launch hreach hlaunch => exact ⟨hreach, hlaunch⟩
  | move _ _ _ ih => exact ih

/-- An earlier generation of the pipeline that was at rest when the record was made is so ever since. -/
theorem Since.rests (h : Since config id x₀ x₁ x) (hof : x₀.supervisor.IsOf g id) (hsettled : ¬x₁.Unsettled g) :
    x.Rests g := by
  induction h with
  | launch hreach hlaunch =>
      obtain ⟨hreach₁, -, hkept, hidle⟩ := launches_spec hreach hlaunch
      rw [Unsettled, not_or, not_not] at hsettled
      refine ⟨hsettled.1, fun id' hactive => ?_, fun c hc hg => hsettled.2 ⟨c, hc, hg⟩⟩
      -- what is active is active for its own pipeline, which is idle
      obtain ⟨y, hy, rfl⟩ := hkept g hof
      obtain ⟨z, hz, rfl⟩ := hreach₁.sound.known id' g hactive
      obtain rfl := Option.some.inj (hy.symm.trans hz)
      exact hidle g hactive
  | move _ _ hplay ih => exact ih.play hplay

theorem Since.unsettled_of_tended (h : Since config id x₀ x₁ x) (hof : x₀.supervisor.IsOf g id) {c : Call}
    (hc : c ∈ x.calls) (hg : g ∈ c.stake.tended) : x₁.Unsettled g := by
  by_contra hsettled
  exact (h.rests hof hsettled).untended c hc hg

theorem Since.unsettled_of_stepMonitor (h : Since config id x₀ x₁ x) (hof : x₀.supervisor.IsOf g id)
    {timerFirst : Bool} {s : Supervisor} (hs : x.supervisor.stepMonitor g timerFirst = some s) : x₁.Unsettled g := by
  by_contra hsettled
  rw [(h.rests hof hsettled).isOver.not_stepMonitor] at hs
  cases hs

/-! ### Three runs in which an earlier generation changes the record -/

def status? (x : Scene) (id : PipelineId) : Option RunStatus := (x.supervisor.registry.get? id).map (·.status)

def starting (o : StartOptions) : List Move := .ask (.startOf 1 o) :: List.replicate 5 (.proceed 0 calm)

def stopping : List Move :=
  [.ask (.stopOf 1), .proceed 0 calm, .watch 0 false, .watch 0 false] ++ List.replicate 4 (.proceed 0 calm)

/-- The monitor of the first generation, which may run for a second, up to the point at which all processes are gone
and it is to report. -/
def runningOut : List Move :=
  [.watch 0 false, .pass 1000000000, .watch 0 false, .watch 0 false, .watch 0 false, .watch 0 false,
    .pass 5000000000, .watch 0 false, .watch 0 false, .watch 0 false]

def restarting (k : Nat) : List Move := .ask (.startOf 1 ⟨none, none⟩) :: List.replicate 3 (.proceed k calm)

/-- A start that goes on after its validation, after any moves. -/
theorem since_of_moves {ms : List Move} (hms : ∀ m ∈ ms, m.isPatient = true)
    (hplayed : ms.foldlM play (ofConfig config) = some x₀) {k : Nat} {o : StartOptions} {graph : Graph}
    {env : Surroundings} (hcall : x₀.calls[k]? = some (.start id o (.validating graph)))
    (hplay : x₀.play (.proceed k env) = some x₁) (hlength : x₁.calls.length = x₀.calls.length) :
    Since config id x₀ x₁ x₁ :=
  .launch (Reachable.start.plays ms hms hplayed) ⟨k, env, o, graph, hcall, hplay, hlength⟩

def Meddles (a : Elder) (t : RunStatus) : Prop :=
  ∃ x₀ x₁ x' m, Since {} 1 x₀ x₁ x₁ ∧ Stale x₀ x₁ 1 a m ∧ x₁.play m = some x' ∧
    x₁.status? 1 = some .starting ∧ x'.status? 1 = some t

theorem Meddles.changes {a : Elder} {t : RunStatus} (h : Meddles a t) (ht : t ≠ .starting) :
    ∃ x₀ x₁ x' m, Since {} 1 x₀ x₁ x₁ ∧ Stale x₀ x₁ 1 a m ∧ x₁.play m = some x' ∧
      x'.supervisor.registry.get? 1 ≠ x₁.supervisor.registry.get? 1 := by
  obtain ⟨x₀, x₁, x', m, hsince, hstale, hplay, hbefore, hafter⟩ := h
  refine ⟨x₀, x₁, x', m, hsince, hstale, hplay, fun hsame => ?_⟩
  have hstatus : x'.status? 1 = x₁.status? 1 := congrArg (·.map (·.status)) hsame
  rw [hbefore, hafter] at hstatus
  exact ht (Option.some.inj hstatus)

/-- A worker loses its subscription and is stopped, and its failure comes in when the pipeline was started again. -/
theorem late_event : Meddles .worker .failed := by
  let ms := starting ⟨none, none⟩ ++ stopping ++ [.proceed 0 calm] ++ restarting 0
  let lost : Arrival := ⟨.input 1, "in", .error (.transport "near" "lost")⟩
  obtain ⟨x₀, x₁, x', spec, e, hplayed, hcall, hplay, hlength, hlaunched, hpipeline, herror, hlate, hbefore, hafter⟩ :
      ∃ x₀ x₁ x' spec e, ms.foldlM play (ofConfig {}) = some x₀ ∧
        x₀.calls[0]? = some (.start 1 ⟨none, none⟩ (.validating straight)) ∧
        x₀.play (.proceed 0 calm) = some x₁ ∧ x₁.calls.length = x₀.calls.length ∧
        x₀.supervisor.launched = [spec] ∧ spec.pipeline = 1 ∧
        Work.error? (Worker.run Hub.link spec [lost] 0) { world := {} } = some e ∧
        x₁.play (.ingest (Worker.failed spec e)) = some x' ∧ x₁.status? 1 = some .starting ∧
        x'.status? 1 = some .failed :=
    ⟨_, _, _, _, _, rfl, rfl, rfl, rfl, rfl, rfl, rfl, rfl, rfl, rfl⟩
  have hms : ∀ m ∈ ms, m.isPatient = true := by simp [ms, starting, stopping, restarting, Move.isPatient]
  have hstale : Stale x₀ x₁ 1 .worker (.ingest (Worker.failed spec e)) :=
    .worker (by simp [hlaunched]) hpipeline (Worker.sends_failed herror)
  exact ⟨x₀, x₁, x', _, since_of_moves hms hplayed hcall hplay hlength, hstale, hlate, hbefore, hafter⟩

/-- A stop has no process left to end, and before it goes on, the pipeline is started again. -/
theorem slow_stop : Meddles .call .aborted := by
  let ms := starting ⟨none, none⟩ ++ stopping ++ restarting 1
  obtain ⟨x₀, x₁, x', c, y, t, hplayed, hcall, hplay, hlength, hy, hid, hc, hstake, hstop, hbefore, hafter⟩ :
      ∃ x₀ x₁ x' c y t, ms.foldlM play (ofConfig {}) = some x₀ ∧
        x₀.calls[1]? = some (.start 1 ⟨none, none⟩ (.validating straight)) ∧
        x₀.play (.proceed 1 calm) = some x₁ ∧ x₁.calls.length = x₀.calls.length ∧
        x₀.supervisor.generations[0]? = some y ∧ y.pipeline = 1 ∧ x₁.calls[0]? = some c ∧
        c.stake = .ending [(1, 0, t)] ∧ x₁.play (.proceed 0 calm) = some x' ∧
        x₁.status? 1 = some .starting ∧ x'.status? 1 = some .aborted :=
    ⟨_, _, _, _, _, _, rfl, rfl, rfl, rfl, rfl, rfl, rfl, rfl, rfl, rfl, rfl⟩
  have hms : ∀ m ∈ ms, m.isPatient = true := by simp [ms, starting, stopping, restarting, Move.isPatient]
  have hstale : Stale x₀ x₁ 1 .call (.proceed 0 calm) := .call ⟨y, hy, hid⟩ hc hstake
  exact ⟨x₀, x₁, x', _, since_of_moves hms hplayed hcall hplay hlength, hstale, hstop, hbefore, hafter⟩

/-- A run has come to its time; a stop takes it out of the active ones as its monitor is about to report, and before
the monitor does so, the pipeline is started again. -/
theorem late_report : Meddles .monitor .completed := by
  let ms := starting ⟨some (.ofSecs 1), none⟩ ++ runningOut ++ [.ask (.stopOf 1), .proceed 0 calm] ++ restarting 1
  obtain ⟨x₀, x₁, x', y, hplayed, hcall, hplay, hlength, hy, hid, hwatch, hbefore, hafter⟩ :
      ∃ x₀ x₁ x' y, ms.foldlM play (ofConfig {}) = some x₀ ∧
        x₀.calls[1]? = some (.start 1 ⟨none, none⟩ (.validating straight)) ∧
        x₀.play (.proceed 1 calm) = some x₁ ∧ x₁.calls.length = x₀.calls.length ∧
        x₀.supervisor.generations[0]? = some y ∧ y.pipeline = 1 ∧ x₁.play (.watch 0 false) = some x' ∧
        x₁.status? 1 = some .starting ∧ x'.status? 1 = some .completed :=
    ⟨_, _, _, _, rfl, rfl, rfl, rfl, rfl, rfl, rfl, rfl, rfl⟩
  have hms : ∀ m ∈ ms, m.isPatient = true := by simp [ms, starting, runningOut, restarting, Move.isPatient]
  have hstale : Stale x₀ x₁ 1 .monitor (.watch 0 false) := .monitor ⟨y, hy, hid⟩
  exact ⟨x₀, x₁, x', _, since_of_moves hms hplayed hcall hplay hlength, hstale, hwatch, hbefore, hafter⟩

/-! ### The record of the later start -/

/-- Nobody of this sort changes the record that a later start has made. -/
def Isolated (a : Elder) : Prop :=
  ∀ (config : Config) (id : PipelineId) (x₀ x₁ x x' : Scene) (m : Move), Since config id x₀ x₁ x →
    Stale x₀ x id a m → x.play m = some x' → x'.supervisor.registry.get? id = x.supervisor.registry.get? id

theorem Meddles.not_isolated_of_ne {a : Elder} {t : RunStatus} (h : Meddles a t) (ht : t ≠ .starting) :
    ¬Isolated a := by
  obtain ⟨x₀, x₁, x', m, hsince, hstale, hplay, hchanged⟩ := h.changes ht
  exact fun hisolated => hchanged (hisolated {} 1 x₀ x₁ x₁ x' m hsince hstale hplay)

/-- None of them leaves the record of a later start alone. -/
theorem not_isolated : ¬Isolated .call ∧ ¬Isolated .monitor ∧ ¬Isolated .worker :=
  ⟨slow_stop.not_isolated_of_ne (by decide), late_report.not_isolated_of_ne (by decide),
    late_event.not_isolated_of_ne (by decide)⟩

/-- The record of a start is changed on behalf of an earlier generation of its pipeline only as long as the run has not
ended, and only in three ways. A lifecycle event of one of its workers lets the run go on or fails it. Its monitor, at
a stage at which it reports, fails the run or counts segments of it, provided that the monitor was not over when the
record was made, or that a call had the generation in its hands then. And under the same condition a stop or a shutdown,
but never an abort, aborts the run by its last step for the generation. -/
theorem changed_by_elder (h : Since config id x₀ x₁ x) {a : Elder} (hstale : Stale x₀ x id a m)
    (hplay : x.play m = some x') (hchanged : x'.supervisor.registry.get? id ≠ x.supervisor.registry.get? id) :
    (∃ segments, x₁.supervisor.registry.get? id = some (.initial id segments)) ∧
      ∃ s ts, x.supervisor.registry.get? id = some s ∧ s.status.isTerminal = false ∧
        x'.supervisor.registry.get? id = some (s.after ts) ∧
        match a with
        | .worker => ∃ spec e, m = .ingest e ∧ spec.pipeline = id ∧ Worker.Sends spec e ∧
            (ts = [.markRunning] ∨ ts = [.fail e.message])
        | .monitor => ∃ g timerFirst y, m = .watch g timerFirst ∧ x₁.Unsettled g ∧
            x.supervisor.generations[g]? = some y ∧ y.pipeline = id ∧ y.Reports ts
        | .call => ∃ k env c g t runs message, m = .proceed k env ∧ x₁.Unsettled g ∧ x.calls[k]? = some c ∧
            c.stake = .ending ((id, g, t) :: runs) ∧ (∃ s₁, x.supervisor.stepTakedown g t = some (none, s₁)) ∧
            c.farewell? = some message ∧ ts = [.abort message] := by
  refine ⟨(launches_spec h.launches.1 h.launches.2).2.1, ?_⟩
  cases hstale with
  | @worker spec e hspec hpipeline hsends =>
      obtain rfl := Option.some.inj hplay
      obtain ⟨hid, s, hopen⟩ := (Supervisor.turns_ingest x.supervisor e).of_ne hchanged
      rw [← hid] at hopen
      exact ⟨s, e.asks, hopen.1, hopen.2.1, hopen.2.2, spec, e, rfl, hpipeline, hsends, hsends.asks_eq⟩
  | @monitor g timerFirst hof =>
      obtain ⟨s, hs, rfl⟩ := Option.map_eq_some_iff.mp hplay
      have hunsettled := h.unsettled_of_stepMonitor hof hs
      cases hy : x.supervisor.generations[g]? with
      | none => simp [Supervisor.stepMonitor, hy] at hs
      | some y =>
          rcases Supervisor.turns_stepMonitor hy hs with hsame | ⟨ts, hreports, hturns⟩
          · exact absurd (congrArg (·.get? id) hsame) hchanged
          obtain ⟨rfl, before, hbefore, hopen, hafter⟩ := hturns.of_ne hchanged
          exact ⟨before, ts, hbefore, hopen, hafter, g, timerFirst, y, rfl, hunsettled, hy, rfl, hreports⟩
  | @call k env c id' g t runs hof hc hstake =>
      have hunsettled := h.unsettled_of_tended hof (List.mem_of_getElem? hc) (hstake ▸ List.mem_cons_self)
      obtain ⟨-, hsame | ⟨hlast, message, hfarewell, hturns⟩⟩ :=
        exists_of_proceed hplay hc (Supervisor.turns_ending x.supervisor env hstake)
      · exact absurd (congrArg (·.get? id) hsame) hchanged
      obtain ⟨rfl, before, hbefore, hopen, hafter⟩ := hturns.of_ne hchanged
      exact ⟨before, _, hbefore, hopen, hafter, k, env, c, g, t, runs, message, rfl, hunsettled, hc, hstake, hlast,
        hfarewell, rfl⟩

/-- The slow stop had the first generation in its hands when the second start made its record, and aborts that run. -/
theorem slow_stop_unsettled : ∃ x₀ x₁ x' g message, ∃ m : Move, ∃ s : RunState,
    Since {} 1 x₀ x₁ x₁ ∧ Stale x₀ x₁ 1 .call m ∧ x₁.play m = some x' ∧
      x'.supervisor.registry.get? 1 ≠ x₁.supervisor.registry.get? 1 ∧ x₁.Unsettled g ∧
        x'.supervisor.registry.get? 1 = some (s.after [.abort message]) := by
  obtain ⟨x₀, x₁, x', m, hsince, hstale, hplay, hchanged⟩ := slow_stop.changes (by decide)
  obtain ⟨-, s, ts, -, -, hafter, k, env, c, g, t, runs, message, -, hunsettled, -, -, -, -, rfl⟩ :=
    changed_by_elder hsince hstale hplay hchanged
  exact ⟨x₀, x₁, x', g, message, m, s, hsince, hstale, hplay, hchanged, hunsettled, hafter⟩

end Scene

end Pipeworks
