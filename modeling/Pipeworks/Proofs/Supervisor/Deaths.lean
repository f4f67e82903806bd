import Pipeworks.Proofs.Supervisor.Findings

/-!
Deaths that a monitor overlooks. The poll that finds the time to be over is the last one: from there on the monitor
shuts down processes and reports, and does not look for one that died. Whoever had died before that poll without having
been asked to stop has failed the run; of the others, whoever dies so is overlooked, the run is completed all the same,
and only the status of the processes tells of it.
-/

namespace Pipeworks

namespace Subprocess

variable {now now' : Moment} {p q : Subprocess} {status : ExitStatus}

theorem exitedUnexpectedly_again (now : Moment) (p : Subprocess) :
    ((p.exitedUnexpectedly now).2.exitedUnexpectedly now).1 = (p.exitedUnexpectedly now).1 := by
  cases hasked : p.stopRequested with
  | true => simp [exitedUnexpectedly, hasked]
  | false => simp [exitedUnexpectedly, poll, hasked, Option.or_assoc]

theorem failed_again (now : Moment) (p : Subprocess) : ((p.failed now).2.failed now).1 = (p.failed now).1 :=
  congrArg (Option.any fun status : ExitStatus => !status.isSuccess) (p.exitedUnexpectedly_again now)

/-- A process that had not died unasked, and later has, was alive. -/
theorem Later.alive_of_unexpected (h : Later now now' p q) (hp : (p.exitedUnexpectedly now).1 = none)
    (hq : (q.exitedUnexpectedly now').1 = some status) : p.child.status? now = none := by
  have hunasked : p.stopRequested = false := by
    refine Bool.eq_false_iff.mpr fun hasked => ?_
    rw [Subprocess.exitedUnexpectedly, if_pos (h.asked hasked)] at hq
    cases hq
  rw [Subprocess.exitedUnexpectedly, hunasked] at hp
  exact (Option.or_eq_none_iff.mp hp).2

end Subprocess

namespace Member

variable {α : Type} {ask : Subprocess → Option α × Subprocess}

def answer? (ask : Subprocess → Option α × Subprocess) (ps : List Subprocess) (i : Nat) : Option α :=
  (ps[i]?).bind fun p => (ask p).1

theorem answer?_set (hask : ∀ p, (ask (ask p).2).1 = (ask p).1) {ps : List Subprocess} {i : Nat} {p : Subprocess}
    (hp : ps[i]? = some p) (j : Nat) : answer? ask (ps.set i (ask p).2) j = answer? ask ps j := by
  rw [answer?, answer?, List.getElem?_set]
  split_ifs with hij hlt
  · rw [← hij, hp, Option.bind_some, Option.bind_some, hask]
  · rw [← hij, List.getElem?_eq_none (not_lt.mp hlt)]
  · rfl

/-- Where asking again brings the same answer, the first member that has one is found, with its answer. -/
theorem findAnswer_fst (hask : ∀ p, (ask (ask p).2).1 = (ask p).1) (ms : List Member) (ps : List Subprocess) :
    ((findAnswer ask ms ps).1.map fun f => (f.1, f.2.2)) =
      ms.findSome? fun m => (answer? ask ps m.process).map (m, ·) := by
  induction ms generalizing ps with
  | nil => rfl
  | cons m ms ih =>
      rw [List.findSome?_cons]
      cases hp : ps[m.process]? with
      | none =>
          simp only [findAnswer, answer?, hp, Option.bind_none, Option.map_none]
          exact ih ps
      | some p =>
          have hset := answer?_set hask hp
          rcases hanswer : ask p with ⟨_ | a, q⟩
          · rw [hanswer] at hset
            simp only [findAnswer, hp, hanswer, ih, hset]
            simp only [answer?, hp, hanswer, Option.bind_some, Option.map_none]
          · simp only [findAnswer, answer?, hp, hanswer, Option.bind_some, Option.map_some]

theorem exists_of_anyOf {ask : Subprocess → Bool × Subprocess} (hask : ∀ p, (ask (ask p).2).1 = (ask p).1)
    {ms : List Member} {ps : List Subprocess} (h : (anyOf ask ms ps).1 = true) :
    ∃ m ∈ ms, ∃ p, ps[m.process]? = some p ∧ (ask p).1 = true := by
  have hfst := @findAnswer_fst Unit (fun p => (if (ask p).1 then some () else none, (ask p).2))
    (fun p => by simp only [hask]) ms ps
  obtain ⟨f, hf⟩ := Option.isSome_iff_exists.mp h
  obtain ⟨m, hm, hsome⟩ := List.exists_of_findSome?_eq_some (hfst.symm.trans (congrArg (Option.map _) hf))
  obtain ⟨u, hanswer, -⟩ := Option.map_eq_some_iff.mp hsome
  obtain ⟨p, hp, hanswer⟩ := Option.bind_eq_some_iff.mp hanswer
  refine ⟨m, hm, p, hp, ?_⟩
  by_contra hno
  simp [hno] at hanswer

end Member

namespace Supervisor

variable {s s' : Supervisor} {id : PipelineId} {g i : Nat} {y : Generation} {status : ExitStatus}

/-- A process has died and had not been asked to stop while it was alive. -/
def Died (s : Supervisor) (i : Nat) (status : ExitStatus) : Prop :=
  ∃ p, s.processes[i]? = some p ∧ (p.exitedUnexpectedly s.now).1 = some status

/-- A poll that finds nobody has overlooked nobody. -/
theorem not_died_of_sighting? (h : s.sighting? y = none) (hi : i ∈ y.processes) : ¬s.Died i status := by
  rintro ⟨p, hp, hdied⟩
  obtain ⟨m, hm, rfl⟩ := List.mem_map.mp hi
  have hfst := Member.findAnswer_fst (Subprocess.exitedUnexpectedly_again s.now) y.members s.processes
  rw [sighting?] at h
  rw [h, Option.map_none] at hfst
  have hnone := List.findSome?_eq_none_iff.mp hfst.symm m hm
  simp [Member.answer?, hp, hdied] at hnone

/-- The status of processes is a failure where one of them has died so, with a failure, or the run is said to have
failed. -/
theorem exists_died_of_statusOf (h : (s.statusOf y false).1 = .failed) :
    ∃ i ∈ y.processes, ∃ status, s.Died i status ∧ status.isSuccess = false := by
  have hfailed : (Member.anyOf (Subprocess.failed s.now) y.members s.processes).1 = true := by
    by_contra hnone
    rw [statusOf, if_neg Bool.false_ne_true] at h
    split at h
    rename_i failed ps heq
    rw [heq] at hnone
    rw [if_neg hnone] at h
    dsimp only at h
    split_ifs at h
  obtain ⟨m, hm, p, hp, hfailed⟩ := Member.exists_of_anyOf (Subprocess.failed_again s.now) hfailed
  change ((p.exitedUnexpectedly s.now).1.any fun status => !status.isSuccess) = true at hfailed
  cases hdied : (p.exitedUnexpectedly s.now).1 with
  | none =>
      rw [hdied] at hfailed
      cases hfailed
  | some status =>
      rw [hdied] at hfailed
      exact ⟨m.process, List.mem_map_of_mem hm, status, ⟨p, hp, hdied⟩, by simpa using hfailed⟩

theorem statusWhileHeld_ne_failed {run : Option RunState} (hrun : ∀ r ∈ run, r.status ≠ .failed) :
    statusWhileHeld run ≠ .failed := by
  cases run with
  | none => simp [statusWhileHeld]
  | some r =>
      cases hstatus : r.status with
      | failed => exact absurd hstatus (hrun r rfl)
      | _ => simp [statusWhileHeld, hstatus, RunStatus.isTerminal]

/-- A status call says that a pipeline has failed, though its run is not said to have, where a process of its active
generation has died so, with a failure. -/
theorem exists_died_of_report {run : Option RunState} (hrun : ∀ r ∈ run, r.status ≠ .failed)
    (h : (s.report id run).1.status = .failed) :
    ∃ g y, (id, g) ∈ s.active ∧ s.generations[g]? = some y ∧
      ∃ i ∈ y.processes, ∃ status, s.Died i status ∧ status.isSuccess = false := by
  have hfailed : run.any (·.status = .failed) = false := by
    cases run with
    | none => rfl
    | some r => exact decide_eq_false (hrun r rfl)
  rw [report] at h
  dsimp only at h
  rw [hfailed] at h
  cases hactive : s.generation? id with
  | none =>
      rw [hactive] at h
      dsimp only at h
      split_ifs at h with _ hfalse
      exact hfalse.elim
  | some g =>
      rw [hactive] at h
      dsimp only at h
      cases hy : s.generations[g]? with
      | none =>
          rw [hy] at h
          cases h
      | some y =>
          rw [hy] at h
          dsimp only at h
          split_ifs at h
          · exact absurd h (statusWhileHeld_ne_failed hrun)
          · exact ⟨g, y, mem_active_of_generation? hactive, hy, exists_died_of_statusOf h⟩

theorem Ages.alive_of_died (h : s.Ages s') (hlt : i < s.processes.length) (hnot : ∀ status, ¬s.Died i status)
    (hdied : s'.Died i status) : s.Alive i := by
  obtain ⟨q, hq, hend⟩ := hdied
  have hp : s.processes[i]? = some s.processes[i] := List.getElem?_eq_getElem hlt
  obtain ⟨q', hq', hlater⟩ := h.later i _ hp
  obtain rfl := Option.some.inj (hq.symm.trans hq')
  refine ⟨_, hp, hlater.alive_of_unexpected ?_ hend⟩
  exact Option.eq_none_iff_forall_ne_some.mpr fun status hstatus => hnot status ⟨_, hp, hstatus⟩

theorem sighting?_of_finding? (h : s.finding? y = some .elapsed) : s.sighting? y = none := by
  rw [finding?] at h
  cases hmonitor : y.monitor with
  | checking deadline =>
      rw [hmonitor] at h
      cases hsighting : s.sighting? y with
      | none => rfl
      | some sighted =>
          rw [hsighting] at h
          cases h
  | _ =>
      rw [hmonitor] at h
      cases h

end Supervisor

/-- What the monitor of a generation has decided when it is at a stage, whoever has begun to end the generation. -/
def Monitor.Decided (findings : List (Deed × Finding)) : Monitor → Prop
  | .completing => ∃ d, findings = [(d, .elapsed)]
  | .endingProducers _ => ∃ d, findings = [(d, .elapsed)]
  | .draining _ => ∃ d, findings = [(d, .elapsed)]
  | .endingWorkers _ => ∃ d, findings = [(d, .elapsed)]
  | .failing _ _ _ => True
  | .ended => True
  | _ => findings = []

theorem Supervisor.Tick.decided {s s' : Supervisor} {g : Nat} {z : Generation} {stage : Monitor}
    (htick : s.Tick g z s' stage) (d : Deed) {findings : List (Deed × Finding)} (h : z.monitor.Decided findings) :
    stage.Decided (findings ++ ((s.finding? z).map (d, ·)).toList) := by
  -- the stage changes, and nothing was decided
  have hpasses {m m' : Monitor} (hmonitor : z.monitor = m) (hundecided : s.finding? z = none)
      (hsame : ∀ findings, m.Decided findings = m'.Decided findings) :
      m'.Decided (findings ++ ((s.finding? z).map (d, ·)).toList) := by
    rw [hundecided, Option.map_none, Option.toList_none, List.append_nil, ← hsame, ← hmonitor]
    exact h
  cases htick with
  | begins hmonitor hstage =>
      have hundecided : s.finding? z = none := by rw [finding?, hmonitor]
      obtain hbroken | ⟨wake, deadline, hsleeping⟩ :=
        Monitor.begin_cases s.now (s.config.pollInterval z.runtime) z.runtime
      · exact hpasses hmonitor hundecided fun _ => by rw [hstage, hbroken]; rfl
      · exact hpasses hmonitor hundecided fun _ => by rw [hstage, hsleeping]; rfl
  | quits _ _ => trivial
  | wakes hmonitor _ => exact hpasses hmonitor (by rw [finding?, hmonitor]) fun _ => rfl
  | finds _ _ _ => trivial
  | elapses hmonitor hsighting hover =>
      rw [hmonitor] at h
      refine ⟨d, ?_⟩
      rw [h, finding?, hmonitor, hsighting]
      simp only [hover, if_pos]
      rfl
  | @sleeps deadline m hmonitor hsighting hover hstage =>
      have hundecided : s.finding? z = none := by
        rw [finding?, hmonitor, hsighting]
        simp only [hover]
        rfl
      obtain hbroken | ⟨wake, hsleeping⟩ := Monitor.sleep_cases s.now (s.config.pollInterval z.runtime) deadline
      · exact hpasses hmonitor hundecided fun _ => by rw [hstage, hbroken]; rfl
      · exact hpasses hmonitor hundecided fun _ => by rw [hstage, hsleeping]; rfl
  | claims hmonitor => exact hpasses hmonitor (by rw [finding?, hmonitor]) fun _ => rfl
  | stops hteardown _ =>
      cases hmonitor : z.monitor with
      | failing segment message t => trivial
      | endingProducers t => exact hpasses hmonitor (by rw [finding?, hmonitor]) fun _ => rfl
      | endingWorkers t => exact hpasses hmonitor (by rw [finding?, hmonitor]) fun _ => rfl
      | _ =>
          rw [hmonitor] at hteardown
          cases hteardown
  | fails _ _ => trivial
  | drains hmonitor _ _ => exact hpasses hmonitor (by rw [finding?, hmonitor]) fun _ => rfl
  | leaves _ _ => trivial
  | turns hmonitor _ => exact hpasses hmonitor (by rw [finding?, hmonitor]) fun _ => rfl
  | completes _ _ => trivial

namespace History

variable {config : Config} {τ : List Deed} {x : Scene} {id : PipelineId} {g i : Nat} {y : Generation}
  {status : ExitStatus}

/-- Whoever of a generation has died unasked was alive when its monitor found that the time was over. -/
theorem alive_of_died (h : History config τ x) {d : Deed} (hd : (d, .elapsed) ∈ findings τ g)
    (hi : i ∈ x.supervisor.crew g) (hdied : x.supervisor.Died i status) : d.before.supervisor.Alive i := by
  obtain ⟨d', hspan, hfinding⟩ := List.mem_filterMap.mp hd
  obtain ⟨v, hv, heq⟩ := Option.map_eq_some_iff.mp hfinding
  obtain ⟨rfl, rfl⟩ := Prod.mk.inj heq
  obtain ⟨hmem, hlt⟩ := List.mem_filter.mp hspan
  obtain ⟨hreach, hages⟩ := h.past d' hmem
  rw [Deed.finding?] at hv
  split_ifs at hv
  obtain ⟨z, hz, hfinding⟩ := Option.bind_eq_some_iff.mp hv
  have hcrew : x.supervisor.crew g = d'.before.supervisor.crew g := hages.crew_eq (of_decide_eq_true hlt)
  rw [hcrew] at hi
  have hmember : i ∈ z.processes := by
    rw [Supervisor.crew, hz] at hi
    exact hi
  refine hages.alive_of_died (hreach.allotted.lt_length hi) (fun status => ?_) hdied
  exact Supervisor.not_died_of_sighting? (Supervisor.sighting?_of_finding? hfinding) hmember

theorem decided (h : History config τ x) (hy : x.supervisor.cores[g]? = some y) :
    y.monitor.Decided (findings τ g) := by
  induction h generalizing y with
  | start => cases hy
  | @move τ x x' m hpast hm hplay ih =>
      by_cases hwatch : ∃ timerFirst, m = .watch g timerFirst
      · obtain ⟨timerFirst, rfl⟩ := hwatch
        obtain ⟨s, hs, rfl⟩ := Option.map_eq_some_iff.mp hplay
        obtain ⟨z, stage, hz, htick⟩ := Supervisor.exists_tick hs
        obtain ⟨held, hbecomes⟩ := htick.becomes hz
        have hdecided := ih (Supervisor.getElem?_cores hz)
        obtain rfl := Option.some.inj (hy.symm.trans (Supervisor.getElem?_cores hbecomes))
        rw [findings_of_own hz rfl]
        exact htick.decided _ hdecided
      · have hothers : ∀ timerFirst, m ≠ .watch g timerFirst := fun timerFirst hm => hwatch ⟨timerFirst, hm⟩
        rcases Scene.core_play hm hplay hothers with hsame | ⟨hnew, hfresh⟩
        · have hg : g < x.supervisor.generations.length := by
            have hlt := (List.getElem?_eq_some_iff.mp (hsame ▸ hy)).1
            rwa [Supervisor.cores, List.length_map] at hlt
          rw [findings_of_others hg (Deed.isOf_eq_false hothers)]
          exact ih (hsame ▸ hy)
        · rw [findings, hpast.span_eq_nil hnew, hfresh y hy]
          rfl

end History

/-! ### Who completes a run -/

theorem Event.segmentCompleted_of_completed {e : Event} {r : RunState} (hr : r.status ≠ .completed)
    (h : (r.after e.asks).status = .completed) : e.category = .lifecycle ∧ e.kind = segmentCompleted := by
  rw [asks] at h
  split_ifs at h with hcategory hstarted hcompleted
  · exact absurd h hr
  · cases Transition.eq_countSegment hr h
  · exact ⟨not_not.mp hcategory, hcompleted⟩
  · cases Transition.eq_countSegment hr h
  · cases Transition.eq_countSegment hr h
  · exact absurd h hr

namespace Scene

variable {x x' : Scene} {m : Move} {id : PipelineId}

/-- A move that completes a run: the report of a segment comes in, or a monitor has come to its last reports, which may
be that of an earlier generation. -/
inductive CompletesBy (x x' : Scene) (id : PipelineId) : Move → Prop where
  | event {e : Event} : e.category = .lifecycle → e.kind = Event.segmentCompleted → e.run = id →
      CompletesBy x x' id (.ingest e)
  | monitor {g : Nat} {timerFirst : Bool} {y : Generation} {t : Teardown} : x.supervisor.generations[g]? = some y →
      y.pipeline = id → y.monitor = .endingWorkers t →
      x'.supervisor.cores[g]? = some { y.core with monitor := .ended } → CompletesBy x x' id (.watch g timerFirst)

theorem completes_of_play (hm : m.isPatient = true) (hplay : x.play m = some x')
    (hbefore : x.status? id ≠ some .completed) (hafter : x'.status? id = some .completed) : CompletesBy x x' id m := by
  have hne : x'.supervisor.registry.get? id ≠ x.supervisor.registry.get? id := fun hsame =>
    hbefore ((congrArg (Option.map RunState.status) hsame).symm.trans hafter)
  -- what makes transitions of a run and completes one, completes this one
  have hturns {id' : PipelineId} {ts : List Transition}
      (h : x.supervisor.registry.Turns id' ts x'.supervisor.registry) :
      id = id' ∧ ∃ r : RunState, r.status ≠ .completed ∧ (r.after ts).status = .completed := by
    obtain ⟨rfl, r, hr, -, hr'⟩ := h.of_ne hne
    rw [status?, hr'] at hafter
    rw [status?, hr] at hbefore
    exact ⟨rfl, r, fun heq => hbefore (congrArg some heq), Option.some.inj hafter⟩
  cases m with
  | ask c =>
      rw [play] at hplay
      split_ifs at hplay
      obtain rfl := Option.some.inj hplay
      exact absurd rfl hne
  | proceed k env =>
      obtain ⟨c, c', others, -, heffect, -⟩ := effect_of_proceed hplay
      rcases heffect.turns with hsame | ⟨id', n, -, hnew, hothers⟩ | ⟨id', t, -, -, hcount, hturn⟩
      · exact absurd (congrArg (·.get? id) hsame) hne
      · by_cases hid : id = id'
        · rw [status?, hid, hnew] at hafter
          cases hafter
        · exact absurd (hothers id hid) hne
      · obtain ⟨-, r, hr, hr'⟩ := hturns hturn
        exact absurd (Transition.eq_countSegment hr hr') hcount
  | giveUp k => exact absurd hm (by simp [Move.isPatient])
  | watch g timerFirst =>
      obtain ⟨s, hs, rfl⟩ := Option.map_eq_some_iff.mp hplay
      obtain ⟨y, -, hy, -⟩ := Supervisor.exists_tick hs
      have hfails {message : String} (h : x.supervisor.registry.Turns y.pipeline [.fail message] s.registry) :
          CompletesBy x { x with supervisor := s } id (.watch g timerFirst) := by
        obtain ⟨-, r, hr, hr'⟩ := hturns h
        cases Transition.eq_countSegment hr hr'
      obtain ⟨ps, stage, rfl⟩ | ⟨held, stage, rfl⟩ | ⟨deadline, -, rfl⟩ | ⟨segment, message, t, -, rfl⟩ |
          ⟨t, hmonitor, rfl⟩ := Supervisor.stepMonitor_cases hy hs
      · exact absurd rfl hne
      · exact absurd rfl hne
      · rcases Supervisor.turns_checkForCrash x.supervisor g y deadline with hsame | ⟨message, hturn⟩
        · exact absurd (congrArg (·.get? id) hsame) hne
        · exact hfails hturn
      · have hturn := Supervisor.turns_ingest (x.supervisor.endMonitor g)
          (Monitor.crashEvent y.pipeline segment message)
        exact hfails hturn
      · obtain ⟨hid, -⟩ := hturns (Supervisor.turns_reportCompletion (x.supervisor.endMonitor g) y)
        obtain ⟨held, hbecomes⟩ := Supervisor.getElem?_setHeld_setMonitor hy false .ended
        have hsame := Supervisor.generations_reportCompletion (x.supervisor.endMonitor g) y
        exact .monitor hy hid.symm hmonitor (Supervisor.getElem?_cores ((congrArg (·[g]?) hsame).trans hbecomes))
  | pass time =>
      obtain rfl := Option.some.inj hplay
      exact absurd rfl hne
  | signal process number =>
      obtain rfl := Option.some.inj hplay
      exact absurd rfl hne
  | ingest e =>
      obtain rfl := Option.some.inj hplay
      obtain ⟨rfl, r, hr, hr'⟩ := hturns (Supervisor.turns_ingest x.supervisor e)
      obtain ⟨hcategory, hkind⟩ := Event.segmentCompleted_of_completed hr hr'
      exact .event hcategory hkind rfl

/-- A run that is complete stays as it is until a new record is made, and that does not say so. -/
theorem record_of_complete (hm : m.isPatient = true) (hplay : x.play m = some x')
    (hbefore : x.status? id = some .completed) (hafter : x'.status? id = some .completed) :
    x'.supervisor.registry.get? id = x.supervisor.registry.get? id := by
  rcases record_play hm hplay id with ⟨ts, hts⟩ | ⟨c, -, -, n, hnew⟩
  · obtain ⟨r, hr, hstatus⟩ := Option.map_eq_some_iff.mp hbefore
    rw [hts, hr, Option.map_some, RunState.after_of_terminal (by rw [hstatus]; rfl)]
  · rw [status?, hnew] at hafter
    cases hafter

end Scene

structure Deed.Completes (d : Deed) (id : PipelineId) : Prop where
  before : d.before.status? id ≠ some .completed
  after : d.after.status? id = some .completed

namespace History

variable {config : Config} {τ : List Deed} {x x' : Scene} {m : Move} {id : PipelineId} {g : Nat} {y : Generation}

/-- How a run came to be complete: the report of a segment came in, or the monitor of a generation of the pipeline
reported. That monitor has decided but once, by a poll at which the time was over, and whoever of its processes has died
without having been asked to stop was alive at that poll. -/
inductive Completion (τ : List Deed) (x : Scene) (id : PipelineId) : Move → Prop where
  | event {e : Event} : e.category = .lifecycle → e.kind = Event.segmentCompleted → e.run = id →
      Completion τ x id (.ingest e)
  | monitor {g : Nat} {timerFirst : Bool} {y : Generation} {d : Deed} : x.supervisor.generations[g]? = some y →
      y.pipeline = id → y.monitor = .ended → findings τ g = [(d, .elapsed)] →
      (∀ i ∈ y.processes, ∀ status, x.supervisor.Died i status → d.before.supervisor.Alive i) →
      Completion τ x id (.watch g timerFirst)

theorem completion_of_core (h : History config τ x) {timerFirst : Bool} {d : Deed}
    (hy : x.supervisor.cores[g]? = some y) (hid : y.pipeline = id) (hended : y.monitor = .ended)
    (hfindings : findings τ g = [(d, .elapsed)]) : Completion τ x id (.watch g timerFirst) := by
  rw [Supervisor.cores, List.getElem?_map] at hy
  obtain ⟨z, hz, rfl⟩ := Option.map_eq_some_iff.mp hy
  refine .monitor hz hid hended hfindings fun i hi status hdied => ?_
  refine h.alive_of_died (hfindings ▸ List.mem_cons_self) ?_ hdied
  rw [Supervisor.crew, hz]
  exact hi

theorem Completion.append (h : History config τ x) {m₀ : Move} (hcompletion : Completion τ x id m₀)
    (hm : m.isPatient = true) (hplay : x.play m = some x') : Completion (τ ++ [⟨x, m, x'⟩]) x' id m₀ := by
  have h' := h.move hm hplay
  cases hcompletion with
  | event hcategory hkind hid => exact .event hcategory hkind hid
  | @monitor g timerFirst y d hy hid hended hfindings _ =>
      have hothers : ∀ timerFirst, m ≠ .watch g timerFirst := by
        rintro timerFirst rfl
        obtain ⟨s, hs, -⟩ := Option.map_eq_some_iff.mp hplay
        rw [Supervisor.Over.not_stepMonitor ⟨y, hy, by rw [hended]; rfl⟩] at hs
        cases hs
      have hg : g < x.supervisor.generations.length := (List.getElem?_eq_some_iff.mp hy).1
      have hcore : x'.supervisor.cores[g]? = some y.core := by
        rcases Scene.core_play hm hplay hothers with hsame | ⟨hnew, -⟩
        · exact hsame.trans (Supervisor.getElem?_cores hy)
        · exact absurd hg (not_lt.mpr hnew)
      have hsame : findings (τ ++ [⟨x, m, x'⟩]) g = [(d, .elapsed)] :=
        (findings_of_others hg (Deed.isOf_eq_false hothers)).trans hfindings
      exact h'.completion_of_core hcore hid hended hsame

theorem completion (h : History config τ x) : ∀ d ∈ τ, d.Completes id → Completion τ x id d.move := by
  induction h with
  | start => exact fun d hd => absurd hd List.not_mem_nil
  | @move τ x x' m hpast hm hplay ih =>
      intro d hd hcompletes
      rcases List.mem_append.mp hd with hd | hd
      · exact (ih d hd hcompletes).append hpast hm hplay
      · obtain rfl := List.mem_singleton.mp hd
        have hby := Scene.completes_of_play hm hplay hcompletes.before hcompletes.after
        cases hby with
        | event hcategory hkind hid => exact .event hcategory hkind hid
        | @monitor g timerFirst y t hy hid hmonitor hended =>
            have hdecided : y.core.monitor.Decided (findings τ g) :=
              hpast.decided (Supervisor.getElem?_cores hy)
            rw [show y.core.monitor = .endingWorkers t from hmonitor] at hdecided
            obtain ⟨d, hfindings⟩ := hdecided
            obtain ⟨s, hs, rfl⟩ := Option.map_eq_some_iff.mp hplay
            have hsame : findings (τ ++ [⟨x, .watch g timerFirst, ⟨s, x.calls⟩⟩]) g = [(d, .elapsed)] := by
              rw [findings_of_own hy rfl, hfindings, Supervisor.finding?, hmonitor]
              rfl
            exact (hpast.move hm hplay).completion_of_core hended hid rfl hsame

/-- A run that is complete came to be so, and its record is the same since. -/
theorem exists_completes (h : History config τ x) (hcomplete : x.status? id = some .completed) :
    ∃ d ∈ τ, d.Completes id ∧ Deed.record? d.after id = Deed.record? x id := by
  induction h with
  | start => cases hcomplete
  | @move τ x x' m hpast hm hplay ih =>
      by_cases hbefore : x.status? id = some .completed
      · obtain ⟨d, hd, hcompletes, hrecord⟩ := ih hbefore
        have hsame : Deed.record? x' id = Deed.record? x id := Scene.record_of_complete hm hplay hbefore hcomplete
        exact ⟨d, List.mem_append_left _ hd, hcompletes, hrecord.trans hsame.symm⟩
      · exact ⟨⟨x, m, x'⟩, List.mem_append_right _ List.mem_cons_self, ⟨hbefore, hcomplete⟩, rfl⟩

/-- A process of the active generation has died with a failure and without having been asked to stop, though the run is
complete. If it is the monitor of this generation that completed the run, it decided to do so by a poll at which the
process was alive. -/
structure Overlooked (τ : List Deed) (x : Scene) (id : PipelineId) (g i : Nat) (status : ExitStatus) : Prop where
  active : (id, g) ∈ x.supervisor.active
  member : i ∈ x.supervisor.crew g
  died : x.supervisor.Died i status
  failure : status.isSuccess = false
  completed : ∃ d ∈ τ, d.Completes id ∧ Deed.record? d.after id = Deed.record? x id ∧
    (d.isOf g = true → ∃ p, findings τ g = [(p, .elapsed)] ∧ p.before.supervisor.Alive i)

theorem Completion.alive_of_died {d : Deed} {i : Nat} {status : ExitStatus} (h : Completion τ x id d.move)
    (hof : d.isOf g = true) (hi : i ∈ x.supervisor.crew g) (hdied : x.supervisor.Died i status) :
    ∃ p, findings τ g = [(p, .elapsed)] ∧ p.before.supervisor.Alive i := by
  rw [Deed.isOf] at hof
  generalize d.move = m at h hof
  cases h with
  | event _ _ _ => cases hof
  | @monitor g' timerFirst y p hy _ _ hfindings halive =>
      obtain rfl : g' = g := of_decide_eq_true hof
      rw [Supervisor.crew, hy] at hi
      exact ⟨p, hfindings, halive i hi status hdied⟩

/-- A run is completed by the report of a segment that comes in, or by the monitor of a generation of its pipeline; and
whoever of that generation has died without having been asked to stop was alive at the one poll by which the monitor
decided that the time was over. So what the monitor overlooks is who dies between that poll and the moment at which it
would be asked to stop. This is also what a status call tells of: if it says that the pipeline has failed, though the
run is complete and what it has read of the run is not that it failed, a process of the active generation was overlooked
in this way, or the run was completed by somebody else than the monitor of that generation. -/
theorem completed_overlooks_later_deaths (h : History config τ x) (id : PipelineId) :
    (∀ d ∈ τ, d.Completes id → Completion τ x id d.move) ∧
    ∀ run : Option RunState, x.status? id = some .completed → (∀ r ∈ run, r.status ≠ .failed) →
      (x.supervisor.report id run).1.status = .failed → ∃ g i status, Overlooked τ x id g i status := by
  refine ⟨h.completion, fun run hcomplete hrun hfailed => ?_⟩
  obtain ⟨g, y, hactive, hy, i, hi, status, hdied, hfailure⟩ := Supervisor.exists_died_of_report hrun hfailed
  obtain ⟨d, hd, hcompletes, hrecord⟩ := h.exists_completes hcomplete
  have hmember : i ∈ x.supervisor.crew g := by
    rw [Supervisor.crew, hy]
    exact hi
  exact ⟨g, i, status, hactive, hmember, hdied, hfailure, d, hd, hcompletes, hrecord,
    fun hof => (h.completion d hd hcompletes).alive_of_died hof hmember hdied⟩

end History

/-! ### A death that is overlooked -/

namespace Scene

/-- A pipeline may run for a second. Its worker is killed when the time is over, while the monitor lets the workers go
on without producers; the monitor goes on up to the point at which it is to report. -/
def killedLate : List Move :=
  starting ⟨some (.ofSecs 1), none⟩ ++ [.watch 0 false, .pass 1000000000, .watch 0 false, .watch 0 false,
    .watch 0 false, .watch 0 false, .signal 0 Signal.kill, .pass 5000000000, .watch 0 false, .watch 0 false,
    .watch 0 false]

/-- The report completes the run, of which a process was seen to have ended without having been asked to stop; and a
status call says that the pipeline has failed. -/
theorem killedLate_completed : ∃ x x' y p, killedLate.foldlM play (ofConfig {}) = some x ∧
    x.play (.watch 0 false) = some x' ∧ x.status? 1 = some .starting ∧ x'.status? 1 = some .completed ∧
    x'.supervisor.generations[0]? = some y ∧ y.pipeline = 1 ∧ y.workers = [0] ∧
    x'.supervisor.processes[0]? = some p ∧ p.exit = some (.signal Signal.kill) ∧ p.stopRequested = false ∧
    (x'.supervisor.report 1 (x'.supervisor.registry.get? 1)).1.status = .failed :=
  ⟨_, _, _, _, rfl, rfl, rfl, rfl, rfl, rfl, rfl, rfl, rfl, rfl, rfl⟩

theorem isPatient_killedLate : ∀ m ∈ killedLate, m.isPatient = true := by
  simp [killedLate, starting, Move.isPatient]

/-- A run may be completed though one of its workers was seen to have ended without having been asked to stop, and a
status call may say that a pipeline has failed of which the run is complete. -/
theorem completed_despite_deaths :
    (¬∀ (config : Config) (x x' : Scene) (g : Nat) (timerFirst : Bool) (y : Generation),
      Reachable config (·.isPatient = true) x → x.play (.watch g timerFirst) = some x' →
      x'.supervisor.generations[g]? = some y → x.status? y.pipeline ≠ some .completed →
      x'.status? y.pipeline = some .completed → ∀ i ∈ y.workers, ∀ p, x'.supervisor.processes[i]? = some p →
        p.exit ≠ none → p.stopRequested = true) ∧
    ¬∀ (config : Config) (x : Scene) (id : PipelineId), Reachable config (·.isPatient = true) x →
      x.status? id = some .completed → (x.supervisor.report id (x.supervisor.registry.get? id)).1.status ≠ .failed := by
  obtain ⟨x, x', y, p, hplayed, hplay, hbefore, hafter, hy, hid, hworkers, hp, hexit, hunasked, hreport⟩ :=
    killedLate_completed
  have hreach := Reachable.start.plays killedLate isPatient_killedLate hplayed
  constructor
  · intro h
    have hopen : x.status? y.pipeline ≠ some .completed := by
      rw [hid, hbefore]
      exact fun heq => by cases heq
    have hasked := h {} x x' 0 false y hreach hplay hy hopen (hid ▸ hafter) 0 (hworkers ▸ List.mem_cons_self) p hp
      (hexit ▸ Option.some_ne_none _)
    rw [hunasked] at hasked
    cases hasked
  · exact fun h => h {} x' 1 (hreach.move rfl hplay) hafter hreport

end Scene

namespace History

/-- The worker that was killed late was alive at the poll by which its run was completed. -/
theorem killedLate_overlooked : ∃ τ x d, History {} τ x ∧ x.status? 1 = some .completed ∧
    x.supervisor.Died 0 (.signal Signal.kill) ∧ findings τ 0 = [(d, .elapsed)] ∧ d.before.supervisor.Alive 0 ∧
      ∃ g i status, Overlooked τ x 1 g i status := by
  obtain ⟨x, x', y, p, hplayed, hplay, hbefore, hafter, hy, hid, hworkers, hp, hexit, hunasked, hreport⟩ :=
    Scene.killedLate_completed
  obtain ⟨τ, h⟩ := exists_of_plays Scene.killedLate Scene.isPatient_killedLate .start hplayed
  have hdied : x'.supervisor.Died 0 (.signal Signal.kill) := by
    refine ⟨p, hp, ?_⟩
    rw [Subprocess.exitedUnexpectedly, hunasked]
    simp [Subprocess.poll, hexit]
  obtain ⟨hcompletion, hoverlooked⟩ := completed_overlooks_later_deaths (h.move rfl hplay) 1
  have hopen : x.status? 1 ≠ some .completed := by
    rw [hbefore]
    exact fun heq => by cases heq
  have hrun : ∀ r ∈ x'.supervisor.registry.get? 1, r.status ≠ .failed := by
    intro r hr heq
    rw [Scene.status?, hr, Option.map_some, heq] at hafter
    cases hafter
  cases hcompletion ⟨x, .watch 0 false, x'⟩ (List.mem_append_right _ List.mem_cons_self) ⟨hopen, hafter⟩ with
  | @monitor _ _ z d hz _ _ hfindings halive =>
      obtain rfl := Option.some.inj (hy.symm.trans hz)
      have hmember : 0 ∈ y.processes := Supervisor.workers_subset y (hworkers ▸ List.mem_cons_self)
      exact ⟨_, x', d, h.move rfl hplay, hafter, hdied, hfindings, halive 0 hmember _ hdied,
        hoverlooked _ hafter hrun hreport⟩

end History

end Pipeworks
