import Pipeworks.Proofs.Subprocess
import Pipeworks.Proofs.Supervisor.Scene

/-!
Steps of a supervisor that leave alone who is responsible for which processes. A quiet step changes neither the
active pipelines, nor those that are starting, nor which processes belong to which generation, and does to the
processes themselves only what time, signals and looking do. Monitors, events, questions and teardowns are quiet.
-/

namespace Pipeworks

def Generation.crew (x : Generation) : PipelineId × List Member := (x.pipeline, x.members)

namespace Supervisor

variable {s s' s'' : Supervisor}

def Alive (s : Supervisor) (i : Nat) : Prop := ∃ p, s.processes[i]? = some p ∧ p.child.status? s.now = none

def Gone (s : Supervisor) (i : Nat) : Prop := ∃ p, s.processes[i]? = some p ∧ p.child.status? s.now ≠ none

def Honest (s : Supervisor) : Prop := ∀ p ∈ s.processes, p.Honest s.now

theorem Gone.not_alive {i : Nat} (h : s.Gone i) : ¬s.Alive i := by
  rintro ⟨q, hq, hrun⟩
  obtain ⟨p, hp, hend⟩ := h
  exact hend (Option.some.inj (hp.symm.trans hq) ▸ hrun)

def Aged (now now' : Moment) (ps qs : List Subprocess) : Prop :=
  ∀ i : Nat, Option.Rel (Subprocess.Later now now') ps[i]? qs[i]?

/-- A step that changes nothing of who is responsible for what. -/
structure Quiet (s s' : Supervisor) : Prop where
  active : s'.active = s.active
  activeHeld : s'.activeHeld = s.activeHeld
  starting : s'.starting = s.starting
  crews : s'.generations.map Generation.crew = s.generations.map Generation.crew
  aged : Aged s.now s'.now s.processes s'.processes

/-! ### Processes -/

namespace Aged

variable {now now' now'' : Moment} {ps qs rs : List Subprocess}

theorem refl (now : Moment) (ps : List Subprocess) : Aged now now ps ps := fun i => by
  cases ps[i]? with
  | none => exact .none
  | some p => exact .some (.refl now p)

theorem trans (h : Aged now now' ps qs) (h' : Aged now' now'' qs rs) : Aged now now'' ps rs := fun i => by
  have hp := h i
  have hq := h' i
  revert hp hq
  generalize ps[i]? = p, qs[i]? = q, rs[i]? = r
  rintro (⟨hp⟩ | _) hq
  · cases hq with
    | some hq => exact .some (hp.trans hq)
  · cases hq with
    | none => exact .none

theorem set {i : Nat} {p q : Subprocess} (hp : ps[i]? = some p) (h : Subprocess.Later now now p q) :
    Aged now now ps (ps.set i q) := fun j => by
  rw [List.getElem?_set]
  split_ifs with hij hlt
  · rw [← hij, hp]
    exact .some h
  · rw [← hij, List.getElem?_eq_none (not_lt.mp hlt)]
    exact .none
  · exact refl now ps j

theorem modify (i : Nat) {f : Subprocess → Subprocess} (h : ∀ p, Subprocess.Later now now p (f p)) :
    Aged now now ps (ps.modify i f) := fun j => by
  rw [List.getElem?_modify]
  cases ps[j]? with
  | none => exact .none
  | some p =>
      change Option.Rel _ (some p) (some (if i = j then f p else p))
      split_ifs
      · exact .some (h p)
      · exact .some (.refl now p)

theorem honest (h : Aged now now' ps qs) (hps : ∀ p ∈ ps, p.Honest now) : ∀ q ∈ qs, q.Honest now' := by
  intro q hq
  obtain ⟨i, hi⟩ := List.getElem?_of_mem hq
  have hrel := h i
  rw [hi] at hrel
  cases hp : ps[i]? with
  | none => rw [hp] at hrel; exact absurd hrel (by simp)
  | some p =>
      rw [hp, Option.rel_some_some] at hrel
      exact hrel.honest (hps p (List.mem_of_getElem? hp))

theorem findAnswer {α : Type} {ask : Subprocess → Option α × Subprocess}
    (hask : ∀ p, Subprocess.Later now now p (ask p).2) (ms : List Member) (ps : List Subprocess) :
    Aged now now ps (Member.findAnswer ask ms ps).2 := by
  induction ms generalizing ps with
  | nil => exact refl now ps
  | cons m ms ih =>
      cases hp : ps[m.process]? with
      | none =>
          simp only [Member.findAnswer, hp]
          exact ih ps
      | some p =>
          have hlater := hask p
          rcases hanswer : ask p with ⟨_ | a, p'⟩
          · simp only [Member.findAnswer, hp, hanswer]
            rw [hanswer] at hlater
            exact (set hp hlater).trans (ih _)
          · simp only [Member.findAnswer, hp, hanswer]
            rw [hanswer] at hlater
            exact set hp hlater

theorem anyOf {ask : Subprocess → Bool × Subprocess} (hask : ∀ p, Subprocess.Later now now p (ask p).2)
    (ms : List Member) (ps : List Subprocess) : Aged now now ps (Member.anyOf ask ms ps).2 :=
  findAnswer hask ms ps

theorem length_eq (h : Aged now now' ps qs) : qs.length = ps.length := by
  refine le_antisymm (not_lt.mp fun hlt => ?_) (not_lt.mp fun hlt => ?_)
  · have hrel := h ps.length
    rw [List.getElem?_eq_none (le_refl _), List.getElem?_eq_getElem hlt] at hrel
    exact absurd hrel (by simp)
  · have hrel := h qs.length
    rw [List.getElem?_eq_none (le_refl _), List.getElem?_eq_getElem hlt] at hrel
    exact absurd hrel (by simp)

theorem exists_later (h : Aged now now' ps qs) {i : Nat} {p : Subprocess} (hp : ps[i]? = some p) :
    ∃ q, qs[i]? = some q ∧ Subprocess.Later now now' p q := by
  have hrel := h i
  rw [hp] at hrel
  cases hq : qs[i]? with
  | none => rw [hq] at hrel; exact absurd hrel (by simp)
  | some q =>
      rw [hq, Option.rel_some_some] at hrel
      exact ⟨q, rfl, hrel⟩

theorem alive (h : Aged s.now s'.now s.processes s'.processes) {i : Nat} (hi : s'.Alive i) : s.Alive i := by
  obtain ⟨q, hq, hrun⟩ := hi
  have hrel := h i
  rw [hq] at hrel
  cases hp : s.processes[i]? with
  | none => rw [hp] at hrel; exact absurd hrel (by simp)
  | some p =>
      rw [hp, Option.rel_some_some] at hrel
      exact ⟨p, hp, hrel.alive hrun⟩

theorem gone (h : Aged s.now s'.now s.processes s'.processes) {i : Nat} (hi : s.Gone i) : s'.Gone i := by
  obtain ⟨p, hp, hend⟩ := hi
  obtain ⟨q, hq, hlater⟩ := h.exists_later hp
  exact ⟨q, hq, fun hrun => hend (hlater.alive hrun)⟩

end Aged

/-! ### Quiet steps -/

namespace Quiet

theorem refl (s : Supervisor) : Quiet s s := ⟨rfl, rfl, rfl, rfl, .refl _ _⟩

theorem trans (h : Quiet s s') (h' : Quiet s' s'') : Quiet s s'' :=
  ⟨h'.active.trans h.active, h'.activeHeld.trans h.activeHeld, h'.starting.trans h.starting,
    h'.crews.trans h.crews, h.aged.trans h'.aged⟩

theorem alive (h : Quiet s s') {i : Nat} (hi : s'.Alive i) : s.Alive i := h.aged.alive hi

theorem gone (h : Quiet s s') {i : Nat} (hi : s.Gone i) : s'.Gone i := h.aged.gone hi

theorem honest (h : Quiet s s') (hs : s.Honest) : s'.Honest := h.aged.honest hs

theorem of_aged {ps : List Subprocess} (h : Aged s.now s.now s.processes ps) :
    Quiet s { s with processes := ps } := ⟨rfl, rfl, rfl, rfl, h⟩

theorem setRegistry (s : Supervisor) (r : Registry) : Quiet s (s.setRegistry r) := ⟨rfl, rfl, rfl, rfl, .refl _ _⟩

theorem publish (s : Supervisor) (e : Event) : Quiet s (s.publish e) := ⟨rfl, rfl, rfl, rfl, .refl _ _⟩

theorem ingest (s : Supervisor) (e : Event) : Quiet s (s.ingest e).2 := ⟨rfl, rfl, rfl, rfl, .refl _ _⟩

theorem pass (s : Supervisor) (time : Nat) : Quiet s { s with now := s.now + time } := by
  refine ⟨rfl, rfl, rfl, rfl, fun i => ?_⟩
  cases s.processes[i]? with
  | none => exact .none
  | some p => exact .some (.pass (Nat.le_add_right _ _) p)

theorem signal (s : Supervisor) (process number : Nat) : Quiet s (s.signal process number) :=
  of_aged (.modify process fun p => .receive s.now number p)

theorem modifyGeneration (s : Supervisor) (g : Nat) {f : Generation → Generation} (hf : ∀ x, (f x).crew = x.crew) :
    Quiet s (s.modifyGeneration g f) := by
  refine ⟨rfl, rfl, rfl, ?_, .refl _ _⟩
  refine List.ext_getElem? fun j => ?_
  change ((s.generations.modify g f).map Generation.crew)[j]? = _
  rw [List.getElem?_map, List.getElem?_map, List.getElem?_modify]
  cases s.generations[j]? with
  | none => rfl
  | some x =>
      change some ((if g = j then f x else x).crew) = some x.crew
      split_ifs
      · rw [hf]
      · rfl

theorem setMonitor (s : Supervisor) (g : Nat) (m : Monitor) : Quiet s (s.setMonitor g m) :=
  modifyGeneration s g fun _ => rfl

theorem setHeld (s : Supervisor) (g : Nat) (held : Bool) : Quiet s (s.setHeld g held) :=
  modifyGeneration s g fun _ => rfl

theorem cancel (s : Supervisor) (g : Nat) : Quiet s (s.cancel g) := modifyGeneration s g fun _ => rfl

theorem endMonitor (s : Supervisor) (g : Nat) : Quiet s (s.endMonitor g) := (setHeld s g false).trans (setMonitor _ g _)

end Quiet

end Supervisor

/-! ### Teardowns -/

namespace Teardown

variable {s s' : Supervisor} {t t' : Teardown}

def Sure (s : Supervisor) (t : Teardown) : Prop :=
  ∀ i rest limit, t.processes = i :: rest → t.current = some (.killed limit) → s.Gone i

theorem Sure.quiet (h : t.Sure s) (hq : s.Quiet s') : t.Sure s' :=
  fun i rest limit hi hstage => hq.gone (h i rest limit hi hstage)

theorem sure_of_current_eq_none (h : t.current = none) : t.Sure s := by
  intro i rest limit _ hstage
  rw [h] at hstage
  exact absurd hstage (by simp)

theorem next_finished (h : t.next s = .finished s') : s' = s ∧ t.processes = [] := by
  unfold next at h
  split at h
  · exact ⟨(Next.finished.inj h).symm, by assumption⟩
  · split at h
    · exact absurd h (by simp)
    · split at h
      · exact absurd h (by simp)
      · split at h <;> exact absurd h (by simp)

/-- All that a teardown may do when it goes on: it leaves out a process that is not there, begins with one, kills one,
or leaves out one that was killed or has ended. -/
theorem next_later_cases (h : t.next s = .later t' s') :
    ∃ i rest, t.processes = i :: rest ∧
      ((s.processes[i]? = none ∧ t' = ⟨rest, none⟩ ∧ s' = s) ∨
        ∃ p q, s.processes[i]? = some p ∧ s' = { s with processes := s.processes.set i q } ∧
          Subprocess.Later s.now s.now p q ∧
          ((∃ limit, t' = ⟨i :: rest, some (.asked limit)⟩) ∨
            (∃ stage, t' = ⟨i :: rest, some stage⟩ ∧ q.child.status? s.now ≠ none) ∨
            (t' = ⟨rest, none⟩ ∧
              (p.Honest s.now → (∃ limit, t.current = some (.killed limit)) ∨ p.child.status? s.now ≠ none)))) := by
  obtain ⟨_ | ⟨i, rest⟩, current⟩ := t
  · exact absurd h (by simp [next])
  refine ⟨i, rest, rfl, ?_⟩
  cases hp : s.processes[i]? with
  | none =>
      simp only [next, hp] at h
      obtain ⟨rfl, rfl⟩ := Next.later.inj h
      exact .inl ⟨rfl, rfl, rfl⟩
  | some p =>
      right
      cases current with
      | none =>
          simp only [next, hp] at h
          obtain ⟨rfl, rfl⟩ := Next.later.inj h
          exact ⟨p, _, rfl, rfl, Shutdown.later_start _ _ p, .inl ⟨_, rfl⟩⟩
      | some stage =>
          cases hnext : stage.next s.config.gracePeriod s.now p with
          | wait =>
              simp only [next, hp, hnext] at h
              exact absurd h (by simp)
          | later stage' q =>
              simp only [next, hp, hnext] at h
              obtain ⟨rfl, rfl⟩ := Next.later.inj h
              obtain ⟨hlater, hgone⟩ := Shutdown.next_later hnext
              exact ⟨p, q, rfl, rfl, hlater, .inr (.inl ⟨stage', rfl, hgone⟩)⟩
          | done status q =>
              simp only [next, hp, hnext] at h
              obtain ⟨rfl, rfl⟩ := Next.later.inj h
              obtain ⟨hlater, hgone⟩ := Shutdown.next_done hnext
              exact ⟨p, q, rfl, rfl, hlater, .inr (.inr ⟨rfl, fun hp => (hgone hp).imp_left (by simp)⟩)⟩

theorem quiet_of_next_later (h : t.next s = .later t' s') : s.Quiet s' := by
  obtain ⟨i, rest, -, ⟨-, -, rfl⟩ | ⟨p, q, hp, rfl, hlater, -⟩⟩ := next_later_cases h
  · exact .refl s'
  · exact .of_aged (.set hp hlater)

theorem gone_set {i : Nat} {p q : Subprocess} (hp : s.processes[i]? = some p)
    (hq : q.child.status? s.now ≠ none) : Supervisor.Gone { s with processes := s.processes.set i q } i := by
  obtain ⟨hlt, -⟩ := List.getElem?_eq_some_iff.mp hp
  exact ⟨q, List.getElem?_set_self hlt, hq⟩

theorem ended_of_left_out (hs : s.Honest) (ht : t.Sure s) {i : Nat} {rest : List Nat} {p : Subprocess}
    (hprocesses : t.processes = i :: rest) (hp : s.processes[i]? = some p)
    (hwhy : p.Honest s.now → (∃ limit, t.current = some (.killed limit)) ∨ p.child.status? s.now ≠ none) :
    p.child.status? s.now ≠ none := by
  rcases hwhy (hs p (List.mem_of_getElem? hp)) with ⟨limit, hkilled⟩ | hgone
  · obtain ⟨p', hp', hend⟩ := ht i rest limit hprocesses hkilled
    rw [Option.some.inj (hp.symm.trans hp')]
    exact hend
  · exact hgone

theorem next_later (hs : s.Honest) (ht : t.Sure s) (h : t.next s = .later t' s') :
    t'.Sure s' ∧ t'.processes ⊆ t.processes ∧ ∀ i ∈ t.processes, s'.Alive i → i ∈ t'.processes := by
  obtain ⟨i, rest, hprocesses, ⟨hnone, rfl, rfl⟩ | ⟨p, q, hp, rfl, hlater, hstage⟩⟩ := next_later_cases h
  · rw [hprocesses]
    refine ⟨sure_of_current_eq_none rfl, List.subset_cons_self _ _, fun j hj halive => ?_⟩
    rcases List.mem_cons.mp hj with rfl | hj
    · obtain ⟨p, hp, -⟩ := halive
      exact absurd (hnone.symm.trans hp) (by simp)
    · exact hj
  · rw [hprocesses]
    rcases hstage with ⟨limit, rfl⟩ | ⟨stage, rfl, hgone⟩ | ⟨rfl, hgone⟩
    · refine ⟨fun j rest' limit' _ hstage => ?_, List.Subset.refl _, fun j hj _ => hj⟩
      exact absurd hstage (by simp)
    · refine ⟨fun j rest' limit hj _ => ?_, List.Subset.refl _, fun j hj _ => hj⟩
      obtain ⟨rfl, -⟩ := List.cons.inj hj
      exact gone_set hp hgone
    · have hend := ended_of_left_out hs ht hprocesses hp hgone
      refine ⟨sure_of_current_eq_none rfl, List.subset_cons_self _ _, fun j hj halive => ?_⟩
      rcases List.mem_cons.mp hj with rfl | hj
      · exact absurd halive (gone_set hp fun hrun => hend (hlater.alive hrun)).not_alive
      · exact hj

/-- A teardown whose processes are there leaves out some that are gone from the front, and does nothing to those that
are not the first. -/
theorem next_front (hs : s.Honest) (ht : t.Sure s) (hthere : ∀ i ∈ t.processes, i < s.processes.length)
    (h : t.next s = .later t' s') :
    (∃ front, t.processes = front ++ t'.processes ∧ ∀ i ∈ front, s'.Gone i) ∧
      ∀ i, s'.processes[i]? ≠ s.processes[i]? → ∃ rest, t.processes = i :: rest := by
  obtain ⟨i, rest, hprocesses, ⟨hnone, -, -⟩ | ⟨p, q, hp, rfl, hlater, hstage⟩⟩ := next_later_cases h
  · have hlt := hthere i (hprocesses ▸ List.mem_cons_self)
    exact absurd (List.getElem?_eq_none_iff.mp hnone) (not_le.mpr hlt)
  · refine ⟨?_, fun j hj => ⟨rest, ?_⟩⟩
    · rw [hprocesses]
      rcases hstage with ⟨limit, rfl⟩ | ⟨stage, rfl, -⟩ | ⟨rfl, hgone⟩
      · exact ⟨[], rfl, fun j hj => absurd hj List.not_mem_nil⟩
      · exact ⟨[], rfl, fun j hj => absurd hj List.not_mem_nil⟩
      · refine ⟨[i], rfl, fun j hj => ?_⟩
        obtain rfl := List.mem_singleton.mp hj
        have hend := ended_of_left_out hs ht hprocesses hp hgone
        exact gone_set hp fun hrun => hend (hlater.alive hrun)
    · by_cases hji : j = i
      · rw [hji]
        exact hprocesses
      · exact absurd (List.getElem?_set_ne (Ne.symm hji)) hj

end Teardown

/-! ### Monitors and questions -/

namespace Supervisor

variable {s s' : Supervisor}

namespace Quiet

theorem monitorTeardown {g : Nat} {t : Teardown} {stage : Teardown → Monitor} {finish : Supervisor → Supervisor}
    (hfinish : ∀ s, Quiet s (finish s)) (h : s.monitorTeardown g t stage finish = some s') : Quiet s s' := by
  rw [Supervisor.monitorTeardown] at h
  cases hnext : t.next s with
  | wait => rw [hnext] at h; exact absurd h (by simp)
  | later t' s₁ =>
      rw [hnext] at h
      obtain rfl := Option.some.inj h
      exact (Teardown.quiet_of_next_later hnext).trans (setMonitor _ _ _)
  | finished s₁ =>
      rw [hnext] at h
      obtain rfl := Option.some.inj h
      obtain ⟨rfl, -⟩ := Teardown.next_finished hnext
      exact hfinish s₁

theorem checkForCrash (s : Supervisor) (g : Nat) (x : Generation) (deadline : Option Moment) :
    Quiet s (s.checkForCrash g x deadline) := by
  have hlook := of_aged (Aged.findAnswer (Subprocess.Later.exitedUnexpectedly s.now) x.members s.processes)
  rw [Supervisor.checkForCrash]
  split
  rename_i found ps heq
  rw [heq] at hlook
  refine hlook.trans ?_
  split
  · exact (setRegistry _ _).trans ((setHeld _ _ _).trans (setMonitor _ _ _))
  · exact setMonitor _ _ _

theorem reportCompletion (s : Supervisor) (x : Generation) : Quiet s (s.reportCompletion x) := by
  rw [Supervisor.reportCompletion]
  generalize x.members.filter (fun m => !m.isProducer) = ms
  induction ms generalizing s with
  | nil => exact refl s
  | cons m ms ih => exact (ingest s _).trans (ih _)

theorem stepMonitor {g : Nat} {timerFirst : Bool} (h : s.stepMonitor g timerFirst = some s') : Quiet s s' := by
  rw [Supervisor.stepMonitor] at h
  cases hx : s.generations[g]? with
  | none => rw [hx] at h; exact absurd h (by simp)
  | some x =>
      rw [hx] at h
      cases hmonitor : x.monitor with
      | fresh =>
          simp only [hmonitor] at h
          obtain rfl := Option.some.inj h
          exact setMonitor _ _ _
      | sleeping wake deadline =>
          simp only [hmonitor] at h
          split_ifs at h <;> obtain rfl := Option.some.inj h <;> exact setMonitor _ _ _
      | checking deadline =>
          simp only [hmonitor] at h
          split_ifs at h
          obtain rfl := Option.some.inj h
          exact checkForCrash _ _ _ _
      | failing segment message t =>
          simp only [hmonitor] at h
          exact monitorTeardown (fun s => (endMonitor s g).trans (ingest _ _)) h
      | completing =>
          simp only [hmonitor] at h
          split_ifs at h
          obtain rfl := Option.some.inj h
          exact (setHeld _ _ _).trans (setMonitor _ _ _)
      | endingProducers t =>
          simp only [hmonitor] at h
          exact monitorTeardown (fun s => setMonitor s g _) h
      | draining limit =>
          simp only [hmonitor] at h
          split_ifs at h <;> obtain rfl := Option.some.inj h
          · exact endMonitor _ _
          · exact setMonitor _ _ _
      | endingWorkers t =>
          simp only [hmonitor] at h
          exact monitorTeardown (fun s => (endMonitor s g).trans (reportCompletion _ x)) h
      | ended => simp [hmonitor] at h
      | broken => simp [hmonitor] at h

theorem anyAlive (s : Supervisor) (g : Nat) : Quiet s (s.anyAlive g).2 := by
  rw [Supervisor.anyAlive]
  cases s.generations[g]? with
  | none => exact refl s
  | some x => exact of_aged (.anyOf (Subprocess.Later.isAlive s.now) x.members s.processes)

theorem statusOf (s : Supervisor) (x : Generation) (hasFailed : Bool) : Quiet s (s.statusOf x hasFailed).2 := by
  have hfailed := Aged.anyOf (Subprocess.Later.failed s.now) x.members s.processes
  rw [Supervisor.statusOf]
  split_ifs
  · exact refl s
  · split
    rename_i failed ps heq
    rw [heq] at hfailed
    split_ifs
    · exact of_aged hfailed
    · exact of_aged (hfailed.trans (.anyOf (Subprocess.Later.isAlive s.now) x.members ps))

theorem report (s : Supervisor) (id : PipelineId) (run : Option RunState) : Quiet s (s.report id run).2 := by
  rw [Supervisor.report]
  cases s.generation? id with
  | none => dsimp only; split_ifs <;> exact refl s
  | some g =>
      dsimp only
      cases s.generations[g]? with
      | none => exact refl s
      | some x =>
          dsimp only
          split_ifs
          · exact refl s
          · exact statusOf s x _

end Quiet

/-- If no member is found alive, all of them are gone. -/
theorem not_alive_of_findAnswer {now : Moment} {α : Type} {ask : Subprocess → Option α × Subprocess}
    (hask : ∀ p, Subprocess.Later now now p (ask p).2)
    (hend : ∀ p, p.Honest now → (ask p).1 = none → p.child.status? now ≠ none) (ms : List Member)
    (ps : List Subprocess) (hps : ∀ p ∈ ps, p.Honest now) (hnone : (Member.findAnswer ask ms ps).1 = none) :
    ∀ m ∈ ms, ∀ q, (Member.findAnswer ask ms ps).2[m.process]? = some q → q.child.status? now ≠ none := by
  induction ms generalizing ps with
  | nil => simp
  | cons m ms ih =>
      -- what happened to a process before its turn and after it is only that it was looked at
      have haged := Aged.findAnswer hask (m :: ms) ps
      cases hp : ps[m.process]? with
      | none =>
          intro m' hm' q hq
          rcases List.mem_cons.mp hm' with rfl | hm'
          · have hrel := haged m'.process
            rw [hp, hq] at hrel
            exact absurd hrel (by simp)
          · simp only [Member.findAnswer, hp] at hnone hq
            exact ih ps hps hnone m' hm' q hq
      | some p =>
          have hlater := hask p
          rcases hanswer : ask p with ⟨_ | a, p'⟩
          · simp only [Member.findAnswer, hp, hanswer] at hnone ⊢
            rw [hanswer] at hlater
            have hset := Aged.set hp hlater
            intro m' hm' q hq
            rcases List.mem_cons.mp hm' with rfl | hm'
            · have hrel := (hset.trans (Aged.findAnswer hask ms _)) m'.process
              rw [hp, hq, Option.rel_some_some] at hrel
              exact fun hrun => hend p (hps p (List.mem_of_getElem? hp)) (by rw [hanswer]) (hrel.alive hrun)
            · exact ih _ (hset.honest hps) hnone m' hm' q hq
          · simp [Member.findAnswer, hp, hanswer] at hnone

def crew (s : Supervisor) (g : Nat) : List Nat := ((s.generations[g]?).map fun x => x.members.map (·.process)).getD []

theorem Quiet.crew_eq (h : Quiet s s') (g : Nat) : s'.crew g = s.crew g := by
  have hg := congrArg (·[g]?) h.crews
  simp only [List.getElem?_map] at hg
  rw [crew, crew]
  cases hx : s.generations[g]? <;> cases hy : s'.generations[g]? <;> simp [hx, hy, Generation.crew] at hg ⊢
  rw [hg.2]

theorem not_alive_of_anyAlive {g : Nat} (hs : s.Honest) (h : (s.anyAlive g).1 = false) {i : Nat} (hi : i ∈ s.crew g) :
    ¬(s.anyAlive g).2.Alive i := by
  rw [anyAlive] at h ⊢
  cases hx : s.generations[g]? with
  | none => simp [crew, hx] at hi
  | some x =>
      obtain ⟨m, hm, rfl⟩ : ∃ m ∈ x.members, m.process = i := by simpa [crew, hx] using hi
      simp only [hx] at h ⊢
      rintro ⟨q, hq, hrun⟩
      refine not_alive_of_findAnswer (fun p => ?_) (fun p hp hnone => ?_) x.members s.processes hs ?_ m hm q hq hrun
      · exact Subprocess.Later.isAlive s.now p
      · intro hrunning
        have halive := (Subprocess.isAlive_iff hp).mpr hrunning
        change (if (p.isAlive s.now).1 = true then some () else none) = none at hnone
        rw [if_pos halive] at hnone
        exact absurd hnone (by simp)
      · exact Option.not_isSome_iff_eq_none.mp (Bool.eq_false_iff.mp h)

end Supervisor

end Pipeworks
