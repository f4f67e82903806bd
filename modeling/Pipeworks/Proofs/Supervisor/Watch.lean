import Pipeworks.Proofs.Supervisor.Standing

/-!
What a monitor has brought about by the time it is at a stage. As long as a generation stands, nobody was asked to stop
before its monitor shuts down processes; a monitor that shuts down the processes of a failed run has failed the run
before; the workers are not asked to stop before all producers are gone; and when a monitor has ended, the run has ended
and no process is alive. Each stage has its own part of this, a step of the monitor leads from one to the next, and what
others do leaves it as it is.
-/

namespace Pipeworks

namespace RunState

variable {s : RunState}

theorem isTerminal_after (h : s.status.isTerminal = true) (ts : List Transition) :
    (s.after ts).status.isTerminal = true := by
  rw [after_of_terminal h]
  exact h

theorem isTerminal_after_of_ends {t : Transition} (hends : t.ends = true) (hne : t ≠ .countSegment) (s : RunState) :
    (s.after [t]).status.isTerminal = true := by
  change (t.act s).2.status.isTerminal = true
  obtain ⟨hterminal | ⟨rfl, -⟩, hact⟩ | ⟨rfl, -⟩ | ⟨h, -⟩ | ⟨h, -⟩ | ⟨-, -, -, hact⟩ := t.act_cases s
  · rw [hact]
    exact hterminal
  · cases hends
  · cases hends
  · exact absurd h hne
  · exact absurd h hne
  · rw [hact]
    exact Transition.isTerminal_outcome hends

/-- As many segments as are left complete a run that has not ended. -/
theorem after_countSegments {n : Nat} (hpos : 0 < n) (hopen : s.status.isTerminal = false)
    (htotal : s.totalSegments = s.completedSegments + n) :
    s.after (List.replicate n .countSegment) =
      { s with status := .completed, message := "Pipeline completed", completedSegments := s.totalSegments } := by
  induction n generalizing s with
  | zero => omega
  | succ n ih =>
      have hcons : s.after (List.replicate (n + 1) .countSegment) =
          (Transition.countSegment.act s).2.after (List.replicate n .countSegment) := rfl
      rw [hcons]
      obtain ⟨hidle, -⟩ | ⟨h, -⟩ | ⟨-, -, hmore, hact⟩ | ⟨-, -, hlast, hact⟩ | ⟨-, h, -⟩ :=
        Transition.countSegment.act_cases s
      · simp [hopen] at hidle
      · cases h
      · rw [hact]
        exact ih (by omega) hopen (by simp only; omega)
      · obtain rfl : n = 0 := by omega
        rw [hact]
        simp only [List.replicate_zero, after, List.foldl_nil, Transition.outcome, htotal]
      · exact absurd rfl h

theorem isTerminal_after_countSegments {n : Nat} (hpos : 0 < n) (htotal : s.totalSegments ≤ s.completedSegments + n) :
    (s.after (List.replicate n .countSegment)).status.isTerminal = true := by
  induction n generalizing s with
  | zero => omega
  | succ n ih =>
      have hcons : s.after (List.replicate (n + 1) .countSegment) =
          (Transition.countSegment.act s).2.after (List.replicate n .countSegment) := rfl
      rw [hcons]
      obtain ⟨hterminal | ⟨h, -⟩, hact⟩ | ⟨h, -⟩ | ⟨-, -, hmore, hact⟩ | ⟨-, -, -, hact⟩ | ⟨-, h, -⟩ :=
        Transition.countSegment.act_cases s
      · rw [hact]
        exact isTerminal_after hterminal _
      · cases h
      · cases h
      · rw [hact]
        exact ih (by omega) (by simp only; omega)
      · rw [hact]
        exact isTerminal_after rfl _
      · exact absurd rfl h

end RunState

namespace Supervisor

variable {s s' : Supervisor} {stakes : List Stake} {id : PipelineId} {g : Nat} {x y : Generation} {m : Monitor}
  {t : Teardown} {is : List Nat}

def HasEnded (s : Supervisor) (id : PipelineId) : Prop :=
  ∃ r, s.registry.get? id = some r ∧ r.status.isTerminal = true

def NoneAsked (s : Supervisor) (is : List Nat) : Prop := ∀ i ∈ is, ¬s.Asked i

def NoneAlive (s : Supervisor) (is : List Nat) : Prop := ∀ i ∈ is, ¬s.Alive i

structure Sweeps (s : Supervisor) (t : Teardown) (is : List Nat) : Prop where
  sure : t.Sure s
  rest : ∀ i ∈ is, s.Alive i → i ∈ t.processes

/-- What the monitor of a generation has brought about when it is at a stage. -/
def Attained (s : Supervisor) (y : Generation) : Monitor → Prop
  | .failing _ _ t => s.HasEnded y.pipeline ∧ s.Sweeps t y.processes
  | .endingProducers t => s.NoneAsked y.workers ∧ t.processes ⊆ y.producers ∧ s.Sweeps t y.producers
  | .draining _ => s.NoneAsked y.workers ∧ s.NoneAlive y.producers
  | .endingWorkers t => s.NoneAlive y.producers ∧ s.Sweeps t y.workers
  | .ended => s.HasEnded y.pipeline ∧ s.NoneAlive y.processes
  | _ => s.NoneAsked y.processes

structure Watched (s : Supervisor) (g : Nat) (y : Generation) : Prop where
  found : s.cores[g]? = some y
  manned : 0 < y.workers.length
  record : ∃ r, s.registry.get? y.pipeline = some r ∧ r.totalSegments = y.workers.length
  attained : s.Attained y y.monitor

/-! ### What others leave -/

theorem HasEnded.after (h : s.HasEnded id)
    (hrecord : ∃ ts, s'.registry.get? id = (s.registry.get? id).map (·.after ts)) : s'.HasEnded id := by
  obtain ⟨r, hr, hterminal⟩ := h
  obtain ⟨ts, hts⟩ := hrecord
  exact ⟨r.after ts, by rw [hts, hr, Option.map_some], RunState.isTerminal_after hterminal ts⟩

theorem Sweeps.mono (h : s.Sweeps t is) (hgone : ∀ i, s.Gone i → s'.Gone i)
    (halive : ∀ i ∈ is, s'.Alive i → s.Alive i) : s'.Sweeps t is :=
  ⟨fun i rest limit hi hstage => hgone i (h.sure i rest limit hi hstage),
    fun i hi hrun => h.rest i hi (halive i hi hrun)⟩

theorem Sweeps.quiet (h : s.Sweeps t is) (hq : s.Quiet s') : s'.Sweeps t is :=
  h.mono (fun _ hgone => hq.gone hgone) fun _ _ halive => hq.alive halive

theorem crew_of_core (h : s.cores[g]? = some y) : s.crew g = y.processes := by
  rw [cores, List.getElem?_map] at h
  obtain ⟨x, hx, rfl⟩ := Option.map_eq_some_iff.mp h
  rw [crew, hx]
  rfl

theorem workers_subset (y : Generation) : y.workers ⊆ y.processes := fun _ hi => Generation.mem_processes.mpr (.inl hi)

theorem producers_subset (y : Generation) : y.producers ⊆ y.processes := fun _ hi =>
  Generation.mem_processes.mpr (.inr hi)

theorem Watched.endures (h : s.Watched g y) (he : s.Endures s' y.pipeline g) : s'.Watched g y := by
  have hcrew := crew_of_core h.found
  have hasked {is : List Nat} (hsub : is ⊆ y.processes) (hnone : s.NoneAsked is) : s'.NoneAsked is :=
    fun i hi hasked => hnone i hi (he.asked i (hcrew ▸ hsub hi) hasked)
  have hmono {is : List Nat} (hsub : is ⊆ y.processes) : ∀ i ∈ is, s'.Alive i → s.Alive i :=
    fun i hi => he.alive i (hcrew ▸ hsub hi)
  have halive {is : List Nat} (hsub : is ⊆ y.processes) (hnone : s.NoneAlive is) : s'.NoneAlive is :=
    fun i hi hrun => hnone i hi (hmono hsub i hi hrun)
  obtain ⟨r, hr, htotal⟩ := h.record
  obtain ⟨ts, hts⟩ := he.record
  refine ⟨he.core.trans h.found, h.manned, ⟨r.after ts, by rw [hts, hr, Option.map_some], ?_⟩, ?_⟩
  · rw [RunState.totalSegments_after, htotal]
  · have hattained := h.attained
    cases hmonitor : y.monitor with
    | failing segment message t =>
        rw [hmonitor] at hattained
        exact ⟨hattained.1.after he.record, hattained.2.mono he.gone (hmono (List.Subset.refl _))⟩
    | endingProducers t =>
        rw [hmonitor] at hattained
        obtain ⟨hworkers, hsub, hsweeps⟩ := hattained
        exact ⟨hasked (workers_subset y) hworkers, hsub, hsweeps.mono he.gone (hmono (producers_subset y))⟩
    | draining limit =>
        rw [hmonitor] at hattained
        exact ⟨hasked (workers_subset y) hattained.1, halive (producers_subset y) hattained.2⟩
    | endingWorkers t =>
        rw [hmonitor] at hattained
        exact ⟨halive (producers_subset y) hattained.1, hattained.2.mono he.gone (hmono (workers_subset y))⟩
    | ended =>
        rw [hmonitor] at hattained
        exact ⟨hattained.1.after he.record, halive (List.Subset.refl _) hattained.2⟩
    | _ =>
        rw [hmonitor] at hattained
        exact hasked (List.Subset.refl _) hattained

/-! ### Steps of the monitor -/

/-- A teardown that goes on has before it what is still alive. -/
theorem Sweeps.next {t' : Teardown} (h : s.Sweeps t is) (hs : s.Honest) (hnext : t.next s = .later t' s') :
    s'.Sweeps t' is := by
  obtain ⟨hsure, -, hleft⟩ := Teardown.next_later hs h.sure hnext
  refine ⟨hsure, fun i hi hrun => hleft i (h.rest i hi ?_) hrun⟩
  exact (Teardown.quiet_of_next_later hnext).alive hrun

theorem Sweeps.noneAlive (h : s.Sweeps t is) (hempty : t.processes = []) : s.NoneAlive is := by
  intro i hi hrun
  have hmem := h.rest i hi hrun
  rw [hempty] at hmem
  exact List.not_mem_nil hmem

theorem sweeps_new {is' : List Nat} (hsub : is ⊆ is') : s.Sweeps { processes := is' } is :=
  ⟨Teardown.sure_of_current_eq_none rfl, fun _ hi _ => hsub hi⟩

theorem Allotted.notMem_producers (h : s.Allotted stakes) (hy : s.cores[g]? = some y) {i : Nat}
    (hi : i ∈ y.workers) : i ∉ y.producers := by
  have hnodup : y.processes.Nodup :=
    (List.nodup_flatMap.mp (List.nodup_append.mp h.once).1).1 y (List.mem_of_getElem? hy)
  obtain ⟨m, hm, rfl⟩ := List.mem_map.mp hi
  intro hproducer
  obtain ⟨m', hm', heq⟩ := List.mem_map.mp hproducer
  obtain ⟨hm, hworker⟩ := List.mem_filter.mp hm
  obtain ⟨hm', hproducer⟩ := List.mem_filter.mp hm'
  rw [List.inj_on_of_nodup_map hnodup hm' hm heq] at hproducer
  rw [hproducer] at hworker
  cases hworker

theorem hasEnded_fail {r : Registry} {message : String} {run : RunState} (hrun : s.registry.get? id = some run)
    (hr : r = (s.registry.fail id message).2) :
    ∃ run, r.get? id = some run ∧ run.status.isTerminal = true := by
  have hturn := (Registry.Turns.call (.fail message) s.registry id).own
  rw [hrun, Option.map_some] at hturn
  exact ⟨_, hr ▸ hturn, RunState.isTerminal_after_of_ends rfl (by simp) run⟩

theorem Attained.stops {m : Monitor} {t t' : Teardown} (h : s.Attained y m) (hs : s.Honest)
    (hallotted : s.Allotted stakes) (hy : s.cores[g]? = some y) (hteardown : m.teardown? = some t)
    (hnext : t.next s = .later t' s') : (s'.setMonitor g (m.goOn t')).Attained y (m.goOn t') := by
  have hquiet := Teardown.quiet_of_next_later hnext
  have hrecord : s'.registry = s.registry := by
    obtain ⟨ps, rfl⟩ := eq_of_next_later hnext
    rfl
  cases m with
  | failing segment message u =>
      obtain rfl := Option.some.inj hteardown
      have hended : s'.HasEnded y.pipeline := h.1.after (record_refl (by rw [hrecord]))
      have hsweeps := h.2.next hs hnext
      exact ⟨hended, hsweeps.quiet (.setMonitor s' g _)⟩
  | endingProducers u =>
      obtain rfl := Option.some.inj hteardown
      obtain ⟨hworkers, hsub, hsweeps⟩ := h
      have hsublist := Teardown.sublist_of_next_later hnext
      replace hsweeps := hsweeps.next hs hnext
      refine ⟨fun i hi hasked => ?_, fun i hi => hsub (hsublist.subset hi), hsweeps.quiet (.setMonitor s' g _)⟩
      -- only a producer may have been asked
      rcases Asked.of_next_later hnext hasked with hbefore | ⟨rest, hprocesses⟩
      · exact hworkers i hi hbefore
      · exact hallotted.notMem_producers hy hi (hsub (hprocesses ▸ List.mem_cons_self))
  | endingWorkers u =>
      obtain rfl := Option.some.inj hteardown
      have hsweeps := h.2.next hs hnext
      exact ⟨fun i hi hrun => h.1 i hi (hquiet.alive hrun), hsweeps.quiet (.setMonitor s' g _)⟩
  | _ => cases hteardown

/-- A step of a monitor that was not cancelled brings about what belongs to the stage that it leads to. -/
theorem Tick.attained (h : Tick s g x s' m) (hs : s.Honest) (hallotted : s.Allotted stakes)
    (hcancelled : x.cancelled = false) (hw : s.Watched g x.core) : s'.Attained x.core m := by
  have hattained : s.Attained x.core x.monitor := hw.attained
  obtain ⟨r, hr, htotal⟩ := hw.record
  have hsame {s' : Supervisor} {is : List Nat} (hrequests : s'.requests = s.requests) (hnone : s.NoneAsked is) :
      s'.NoneAsked is := by
    intro i hi hasked
    rw [Asked, hrequests] at hasked
    exact hnone i hi hasked
  cases h with
  | begins hmonitor hm =>
      rw [hmonitor] at hattained
      obtain hbroken | ⟨wake, deadline, hsleeping⟩ :=
        Monitor.begin_cases s.now (s.config.pollInterval x.runtime) x.runtime
      · rw [hm, hbroken]
        exact hattained
      · rw [hm, hsleeping]
        exact hattained
  | quits _ hquits =>
      rw [hcancelled] at hquits
      cases hquits
  | wakes hmonitor _ =>
      rw [hmonitor] at hattained
      exact hattained
  | finds hmonitor _ _ =>
      -- the run is failed in the same step, before the first process is asked to stop
      refine ⟨hasEnded_fail hr rfl, sweeps_new fun i hi => ?_⟩
      exact mem_shutdownOrder.mpr hi
  | elapses hmonitor _ _ =>
      rw [hmonitor] at hattained
      exact hsame (requests_polled s x) hattained
  | @sleeps deadline m hmonitor _ _ hm =>
      rw [hmonitor] at hattained
      have hnone := hsame (requests_polled s x) hattained
      obtain hbroken | ⟨wake, hsleeping⟩ := Monitor.sleep_cases s.now (s.config.pollInterval x.runtime) deadline
      · rw [hm, hbroken]
        exact hnone
      · rw [hm, hsleeping]
        exact hnone
  | claims hmonitor =>
      rw [hmonitor] at hattained
      refine ⟨fun i hi => hattained i (workers_subset _ hi), List.Subset.refl _, sweeps_new (List.Subset.refl _)⟩
  | stops hteardown hnext => exact hattained.stops hs hallotted hw.found hteardown hnext
  | fails hmonitor hempty =>
      rw [hmonitor] at hattained
      exact ⟨hattained.1.after (record_turns (turns_ingest (s.endMonitor g) _)), hattained.2.noneAlive hempty⟩
  | drains hmonitor hempty _ =>
      rw [hmonitor] at hattained
      exact ⟨hattained.1, hattained.2.2.noneAlive hempty⟩
  | leaves _ hleaves =>
      rw [hcancelled] at hleaves
      cases hleaves
  | turns hmonitor _ =>
      rw [hmonitor] at hattained
      exact ⟨hattained.2, sweeps_new (List.Subset.refl _)⟩
  | completes hmonitor hempty =>
      rw [hmonitor] at hattained
      have hworkers := hattained.2.noneAlive hempty
      have hturns := (turns_reportCompletion (s.endMonitor g) x).own
      have hlength : (x.members.filter fun m => !m.isProducer).length = x.core.workers.length :=
        (List.length_map _).symm
      have hbefore : (s.endMonitor g).registry.get? x.pipeline = some r := hr
      rw [hbefore, Option.map_some] at hturns
      refine ⟨⟨_, hturns, ?_⟩, fun i hi hrun => ?_⟩
      · -- a segment is counted for each worker, and there are as many workers as segments
        rw [hlength]
        exact RunState.isTerminal_after_countSegments hw.manned (by omega)
      · have hrun : s.Alive i := (Quiet.reportCompletion (s.endMonitor g) x).alive hrun
        rcases Generation.mem_processes.mp hi with hi | hi
        · exact hworkers i hi hrun
        · exact hattained.1 i hi hrun

theorem Watched.stepMonitor (hw : s.Watched g x.core) (hx : s.generations[g]? = some x) (hs : s.Honest)
    (hallotted : s.Allotted stakes) (hcancelled : x.cancelled = false) {timerFirst : Bool}
    (h : s.stepMonitor g timerFirst = some s') (htick : Tick s g x s' m) :
    s'.Watched g { x.core with monitor := m } := by
  obtain ⟨held, hbecomes⟩ := htick.becomes hx
  obtain ⟨r, hr, htotal⟩ := hw.record
  obtain ⟨ts, hts⟩ := record_stepMonitor h x.pipeline
  have hbefore : s.registry.get? x.pipeline = some r := hr
  refine ⟨?_, hw.manned, ⟨r.after ts, ?_, ?_⟩, htick.attained hs hallotted hcancelled hw⟩
  · exact getElem?_cores hbecomes
  · show s'.registry.get? x.pipeline = _
    rw [hts, hbefore, Option.map_some]
  · rw [RunState.totalSegments_after, htotal]
    rfl

theorem SetsOut.watched (h : s.SetsOut g y) : s.Watched g y := by
  refine ⟨h.found, h.manned, ⟨_, h.record, rfl⟩, ?_⟩
  rw [h.fresh]
  exact h.unasked

end Supervisor

namespace Scene

variable {config : Config} {x x' : Scene} {m : Move} {id : PipelineId} {g : Nat}

theorem Stands.core (h : Reachable config (·.isPatient = true) x) (hg : x.Stands id g) :
    ∃ y : Generation, x.supervisor.generations[g]? = some y ∧ x.supervisor.cores[g]? = some y.core ∧
      y.pipeline = id ∧ y.cancelled = false := by
  obtain ⟨y, hy, hid⟩ := hg.isOf h
  exact ⟨y, hy, Supervisor.getElem?_cores hy, hid, hg.not_cancelled h hy⟩

theorem Stands.watched (h : Reachable config (·.isPatient = true) x) (hg : x.Stands id g) {y : Generation}
    (hy : x.supervisor.cores[g]? = some y) : x.supervisor.Watched g y := by
  induction h generalizing y with
  | start =>
      rcases hg with hactive | hstake
      · exact absurd hactive List.not_mem_nil
      · exact absurd hstake List.not_mem_nil
  | @move x x' m hreach hm hplay ih =>
      rcases hg.before hreach hm hplay with ⟨z, -, -, hsets⟩ | ⟨hold, hothers⟩
      · obtain rfl := Option.some.inj (hy.symm.trans hsets.found)
        exact hsets.watched
      · obtain ⟨z, hz, hcore, hid, hcancelled⟩ := hold.core hreach
        have hw := ih hold hcore
        by_cases hwatch : ∃ timerFirst, m = .watch g timerFirst
        · obtain ⟨timerFirst, rfl⟩ := hwatch
          obtain ⟨s, hs, rfl⟩ := Option.map_eq_some_iff.mp hplay
          obtain ⟨m, htick⟩ := Supervisor.tick_of_stepMonitor hz hs
          have hw' := hw.stepMonitor hz hreach.sound.honest hreach.allotted hcancelled hs htick
          obtain rfl := Option.some.inj (hy.symm.trans hw'.found)
          exact hw'
        · have hendures := hothers fun timerFirst hm => hwatch ⟨timerFirst, hm⟩
          subst hid
          have hw' := hw.endures hendures
          obtain rfl := Option.some.inj (hy.symm.trans hw'.found)
          exact hw'

end Scene

end Pipeworks
