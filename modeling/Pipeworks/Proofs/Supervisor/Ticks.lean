import Pipeworks.Proofs.Supervisor.Records
import Pipeworks.Proofs.Supervisor.Rest
import Pipeworks.Proofs.Supervisor.Requests

/-!
All that one step of a monitor may do, with what let it do so. A monitor sleeps and wakes, looks for a process that
died, shuts down processes one after another, and reports when they are gone.
-/

namespace Pipeworks

namespace Generation

def workers (x : Generation) : List Nat := (x.members.filter fun m => !m.isProducer).map (·.process)

def producers (x : Generation) : List Nat := (x.members.filter (·.isProducer)).map (·.process)

theorem mem_processes {x : Generation} {i : Nat} :
    i ∈ x.members.map (·.process) ↔ i ∈ x.workers ∨ i ∈ x.producers := by
  rw [workers, producers, ← List.mem_append, ← List.map_append, List.mem_map, List.mem_map]
  have hmember (m : Member) : m ∈ x.members ↔
      m ∈ (x.members.filter fun m => !m.isProducer) ++ x.members.filter (·.isProducer) := by
    rw [List.mem_append, List.mem_filter, List.mem_filter]
    cases m.isProducer <;> simp
  simp only [hmember]

end Generation

namespace Monitor

/-- A monitor that goes to sleep does so up to a moment, unless it breaks down. -/
theorem sleep_cases (now : Moment) (interval : Duration) (deadline : Option Moment) :
    sleep now interval deadline = .broken ∨ ∃ wake, sleep now interval deadline = .sleeping wake deadline := by
  rw [sleep]
  split
  · exact .inl rfl
  · exact .inr ⟨_, rfl⟩

theorem begin_cases (now : Moment) (interval : Duration) (runtime : Option Duration) :
    begin now interval runtime = .broken ∨ ∃ wake deadline, begin now interval runtime = .sleeping wake deadline := by
  have hsleep (deadline : Option Moment) : sleep now interval deadline = .broken ∨
      ∃ wake deadline', sleep now interval deadline = .sleeping wake deadline' :=
    (sleep_cases now interval deadline).imp_right fun ⟨wake, hwake⟩ => ⟨wake, deadline, hwake⟩
  unfold begin
  split
  · exact hsleep none
  · split
    · exact .inl rfl
    · exact hsleep _

def teardown? : Monitor → Option Teardown
  | failing _ _ t => some t
  | endingProducers t => some t
  | endingWorkers t => some t
  | _ => none

def goOn (t : Teardown) : Monitor → Monitor
  | failing segment message _ => failing segment message t
  | endingProducers _ => endingProducers t
  | endingWorkers _ => endingWorkers t
  | m => m

end Monitor

namespace Supervisor

variable {s s' : Supervisor} {g : Nat} {x : Generation}

/-- What a poll of the members of a generation finds: a process that ended without having been asked to. -/
def sighting? (s : Supervisor) (x : Generation) : Option (Member × Subprocess × ExitStatus) :=
  (Member.findAnswer (Subprocess.exitedUnexpectedly s.now) x.members s.processes).1

def polled (s : Supervisor) (x : Generation) : Supervisor :=
  { s with processes := (Member.findAnswer (Subprocess.exitedUnexpectedly s.now) x.members s.processes).2 }

/-- The kinds of steps that a monitor makes, each with the stage to which the monitor comes. -/
inductive Tick (s : Supervisor) (g : Nat) (x : Generation) : Supervisor → Monitor → Prop where
  | begins {m : Monitor} : x.monitor = .fresh → m = .begin s.now (s.config.pollInterval x.runtime) x.runtime →
      Tick s g x (s.setMonitor g m) m
  | quits {wake : Moment} {deadline : Option Moment} : x.monitor = .sleeping wake deadline → x.cancelled = true →
      Tick s g x (s.setMonitor g .ended) .ended
  | wakes {wake : Moment} {deadline : Option Moment} : x.monitor = .sleeping wake deadline → wake ≤ s.now →
      Tick s g x (s.setMonitor g (.checking deadline)) (.checking deadline)
  | finds {deadline : Option Moment} {m : Member} {p : Subprocess} {status : ExitStatus} {message : String} :
      x.monitor = .checking deadline → s.sighting? x = some (m, p, status) →
      message = Monitor.crashMessage m p.label status →
      Tick s g x ((((s.polled x).setRegistry (s.registry.fail x.pipeline message).2).setHeld g true).setMonitor g
        (.failing m.segment message (Teardown.ofMembers x.members)))
        (.failing m.segment message (Teardown.ofMembers x.members))
  | elapses {deadline : Option Moment} : x.monitor = .checking deadline → s.sighting? x = none →
      (deadline.any fun d => d ≤ s.now) = true → Tick s g x ((s.polled x).setMonitor g .completing) .completing
  | sleeps {deadline : Option Moment} {m : Monitor} : x.monitor = .checking deadline → s.sighting? x = none →
      (deadline.any fun d => d ≤ s.now) = false → m = .sleep s.now (s.config.pollInterval x.runtime) deadline →
      Tick s g x ((s.polled x).setMonitor g m) m
  | claims : x.monitor = .completing →
      Tick s g x ((s.setHeld g true).setMonitor g (.endingProducers { processes := x.producers }))
        (.endingProducers { processes := x.producers })
  | stops {t t' : Teardown} {s' : Supervisor} : x.monitor.teardown? = some t → t.next s = .later t' s' →
      Tick s g x (s'.setMonitor g (x.monitor.goOn t')) (x.monitor.goOn t')
  | fails {segment : Nat} {message : String} {t : Teardown} : x.monitor = .failing segment message t →
      t.processes = [] →
      Tick s g x ((s.endMonitor g).ingest (Monitor.crashEvent x.pipeline segment message)).2 .ended
  | drains {t : Teardown} {limit : Moment} : x.monitor = .endingProducers t → t.processes = [] →
      limit = s.now + s.config.drainDelay.nanos → Tick s g x (s.setMonitor g (.draining limit)) (.draining limit)
  | leaves {limit : Moment} : x.monitor = .draining limit → x.cancelled = true → Tick s g x (s.endMonitor g) .ended
  | turns {limit : Moment} : x.monitor = .draining limit → limit ≤ s.now →
      Tick s g x (s.setMonitor g (.endingWorkers { processes := x.workers }))
        (.endingWorkers { processes := x.workers })
  | completes {t : Teardown} : x.monitor = .endingWorkers t → t.processes = [] →
      Tick s g x ((s.endMonitor g).reportCompletion x) .ended

theorem tick_monitorTeardown {t : Teardown} {stage : Teardown → Monitor} {finish : Supervisor → Supervisor}
    (hteardown : x.monitor.teardown? = some t) (hstage : ∀ t', stage t' = x.monitor.goOn t')
    (hfinish : t.processes = [] → ∃ m, Tick s g x (finish s) m) (h : s.monitorTeardown g t stage finish = some s') :
    ∃ m, Tick s g x s' m := by
  rw [monitorTeardown] at h
  cases hnext : t.next s with
  | wait =>
      rw [hnext] at h
      cases h
  | later t' s₁ =>
      rw [hnext] at h
      obtain rfl := Option.some.inj h
      rw [hstage]
      exact ⟨_, .stops hteardown hnext⟩
  | finished s₁ =>
      rw [hnext] at h
      obtain rfl := Option.some.inj h
      obtain ⟨rfl, hempty⟩ := Teardown.next_finished hnext
      exact hfinish hempty

theorem tick_checkForCrash (s : Supervisor) (g : Nat) {deadline : Option Moment}
    (hmonitor : x.monitor = .checking deadline) : ∃ m, Tick s g x (s.checkForCrash g x deadline) m := by
  have hfound (found : Option (Member × Subprocess × ExitStatus)) (ps : List Subprocess)
      (heq : Member.findAnswer (Subprocess.exitedUnexpectedly s.now) x.members s.processes = (found, ps)) :
      s.sighting? x = found ∧ s.polled x = { s with processes := ps } := by
    rw [sighting?, polled, heq]
    exact ⟨rfl, rfl⟩
  rw [checkForCrash]
  split
  rename_i found ps heq
  obtain ⟨hsighting, hpolled⟩ := hfound found ps heq
  dsimp only
  split
  · have htick := Tick.finds (g := g) hmonitor hsighting rfl
    rw [hpolled] at htick
    exact ⟨_, htick⟩
  · split_ifs with hover
    · have htick := Tick.elapses (g := g) hmonitor hsighting hover
      rw [hpolled] at htick
      exact ⟨_, htick⟩
    · have htick := Tick.sleeps (g := g) hmonitor hsighting (Bool.eq_false_iff.mpr hover) rfl
      rw [hpolled] at htick
      exact ⟨_, htick⟩

theorem tick_of_stepMonitor (hx : s.generations[g]? = some x) {timerFirst : Bool}
    (h : s.stepMonitor g timerFirst = some s') : ∃ m, Tick s g x s' m := by
  rw [stepMonitor, hx] at h
  cases hmonitor : x.monitor with
  | fresh =>
      simp only [hmonitor] at h
      obtain rfl := Option.some.inj h
      exact ⟨_, .begins hmonitor rfl⟩
  | sleeping wake deadline =>
      simp only [hmonitor] at h
      split_ifs at h with hcancelled hwake <;> obtain rfl := Option.some.inj h
      · exact ⟨_, .quits hmonitor hcancelled.1⟩
      · exact ⟨_, .wakes hmonitor hwake⟩
  | checking deadline =>
      simp only [hmonitor] at h
      split_ifs at h
      obtain rfl := Option.some.inj h
      exact tick_checkForCrash s g hmonitor
  | failing segment message t =>
      simp only [hmonitor] at h
      have hgoOn (t' : Teardown) : Monitor.failing segment message t' = x.monitor.goOn t' := by
        rw [hmonitor]
        rfl
      exact tick_monitorTeardown (by rw [hmonitor]; rfl) hgoOn (fun hempty => ⟨_, .fails hmonitor hempty⟩) h
  | completing =>
      simp only [hmonitor] at h
      split_ifs at h
      obtain rfl := Option.some.inj h
      exact ⟨_, .claims hmonitor⟩
  | endingProducers t =>
      simp only [hmonitor] at h
      have hgoOn (t' : Teardown) : Monitor.endingProducers t' = x.monitor.goOn t' := by
        rw [hmonitor]
        rfl
      exact tick_monitorTeardown (by rw [hmonitor]; rfl) hgoOn (fun hempty => ⟨_, .drains hmonitor hempty rfl⟩) h
  | draining limit =>
      simp only [hmonitor] at h
      split_ifs at h with hcancelled hlimit <;> obtain rfl := Option.some.inj h
      · exact ⟨_, .leaves hmonitor hcancelled.1⟩
      · exact ⟨_, .turns hmonitor hlimit⟩
  | endingWorkers t =>
      simp only [hmonitor] at h
      have hgoOn (t' : Teardown) : Monitor.endingWorkers t' = x.monitor.goOn t' := by
        rw [hmonitor]
        rfl
      exact tick_monitorTeardown (by rw [hmonitor]; rfl) hgoOn (fun hempty => ⟨_, .completes hmonitor hempty⟩) h
  | ended => simp [hmonitor] at h
  | broken => simp [hmonitor] at h

theorem exists_tick {timerFirst : Bool} (h : s.stepMonitor g timerFirst = some s') :
    ∃ x m, s.generations[g]? = some x ∧ Tick s g x s' m := by
  cases hx : s.generations[g]? with
  | none => simp [stepMonitor, hx] at h
  | some x =>
      obtain ⟨m, htick⟩ := tick_of_stepMonitor hx h
      exact ⟨x, m, rfl, htick⟩

/-! ### What such a step does to its generation -/

theorem getElem?_modifyGeneration (hx : s.generations[g]? = some x) (f : Generation → Generation) :
    (s.modifyGeneration g f).generations[g]? = some (f x) := by
  change (s.generations.modify g f)[g]? = _
  rw [List.getElem?_modify_eq, hx]
  rfl

theorem getElem?_setMonitor (hx : s.generations[g]? = some x) (m : Monitor) :
    ∃ held, (s.setMonitor g m).generations[g]? = some { x with monitor := m, held := held } :=
  ⟨x.held, getElem?_modifyGeneration hx _⟩

theorem getElem?_setHeld_setMonitor (hx : s.generations[g]? = some x) (taken : Bool) (m : Monitor) :
    ∃ held, ((s.setHeld g taken).setMonitor g m).generations[g]? = some { x with monitor := m, held := held } :=
  ⟨taken, getElem?_modifyGeneration (getElem?_modifyGeneration hx _) _⟩

/-- The monitor comes to its next stage, and apart from that and from the lock the generation stays what it was. -/
theorem Tick.becomes {m : Monitor} (h : Tick s g x s' m) (hx : s.generations[g]? = some x) :
    ∃ held, s'.generations[g]? = some { x with monitor := m, held := held } := by
  cases h with
  | begins _ _ => exact getElem?_setMonitor hx _
  | quits _ _ => exact getElem?_setMonitor hx _
  | wakes _ _ => exact getElem?_setMonitor hx _
  | finds _ _ _ => exact getElem?_setHeld_setMonitor hx _ _
  | elapses _ _ _ => exact getElem?_setMonitor hx _
  | sleeps _ _ _ _ => exact getElem?_setMonitor hx _
  | claims _ => exact getElem?_setHeld_setMonitor hx _ _
  | stops _ hnext =>
      obtain ⟨ps, rfl⟩ := eq_of_next_later hnext
      exact getElem?_setMonitor hx _
  | fails _ _ => exact getElem?_setHeld_setMonitor hx _ _
  | drains _ _ _ => exact getElem?_setMonitor hx _
  | leaves _ _ => exact getElem?_setHeld_setMonitor hx _ _
  | turns _ _ => exact getElem?_setMonitor hx _
  | completes _ _ =>
      rw [generations_reportCompletion]
      exact getElem?_setHeld_setMonitor hx _ _

theorem teardown?_goOn {m : Monitor} {t t' u : Teardown} (h : m.teardown? = some t)
    (hu : (m.goOn t').teardown? = some u) : u = t' := by
  cases m with
  | failing segment message t => exact (Option.some.inj hu).symm
  | endingProducers t => exact (Option.some.inj hu).symm
  | endingWorkers t => exact (Option.some.inj hu).symm
  | _ => cases h

theorem Tick.teardown_subset {m : Monitor} (h : Tick s g x s' m)
    (hx : ∀ t, x.monitor.teardown? = some t → t.processes ⊆ x.members.map (·.process)) :
    ∀ t, m.teardown? = some t → t.processes ⊆ x.members.map (·.process) := by
  intro t ht
  cases h with
  | begins _ hm =>
      obtain hbroken | ⟨wake, deadline, hsleeping⟩ :=
        Monitor.begin_cases s.now (s.config.pollInterval x.runtime) x.runtime
      · rw [hm, hbroken] at ht
        cases ht
      · rw [hm, hsleeping] at ht
        cases ht
  | quits _ _ => cases ht
  | wakes _ _ => cases ht
  | finds _ _ _ =>
      obtain rfl := Option.some.inj ht
      exact fun i hi => mem_shutdownOrder.mp hi
  | elapses _ _ _ => cases ht
  | @sleeps deadline _ _ _ _ hm =>
      obtain hbroken | ⟨wake, hsleeping⟩ := Monitor.sleep_cases s.now (s.config.pollInterval x.runtime) deadline
      · rw [hm, hbroken] at ht
        cases ht
      · rw [hm, hsleeping] at ht
        cases ht
  | claims _ =>
      obtain rfl := Option.some.inj ht
      exact fun i hi => Generation.mem_processes.mpr (.inr hi)
  | stops hteardown hnext =>
      obtain rfl := teardown?_goOn hteardown ht
      exact fun i hi => hx _ hteardown ((Teardown.sublist_of_next_later hnext).subset hi)
  | fails _ _ => cases ht
  | drains _ _ _ => cases ht
  | leaves _ _ => cases ht
  | turns _ _ =>
      obtain rfl := Option.some.inj ht
      exact fun i hi => Generation.mem_processes.mpr (.inl hi)
  | completes _ _ => cases ht

theorem requests_polled (s : Supervisor) (x : Generation) : (s.polled x).requests = s.requests :=
  requests_findAnswer (fun p => p.stopRequested_exitedUnexpectedly s.now) x.members s.processes

theorem processes_reportCompletion (s : Supervisor) (x : Generation) :
    (s.reportCompletion x).processes = s.processes := by
  rw [reportCompletion]
  generalize x.members.filter (fun m => !m.isProducer) = ms
  induction ms generalizing s with
  | nil => rfl
  | cons m ms ih => exact ih _

theorem Tick.asked {m : Monitor} (h : Tick s g x s' m) {i : Nat} (hi : s'.Asked i) :
    s.Asked i ∨ ∃ t rest, x.monitor.teardown? = some t ∧ t.processes = i :: rest := by
  have hsame {s' : Supervisor} (hrequests : s'.requests = s.requests) (hi : s'.Asked i) :
      s.Asked i ∨ ∃ t rest, x.monitor.teardown? = some t ∧ t.processes = i :: rest := by
    rw [Asked, hrequests] at hi
    exact .inl hi
  cases h with
  | begins _ _ => exact hsame rfl hi
  | quits _ _ => exact hsame rfl hi
  | wakes _ _ => exact hsame rfl hi
  | finds _ _ _ => exact hsame (requests_polled s x) hi
  | elapses _ _ _ => exact hsame (requests_polled s x) hi
  | sleeps _ _ _ _ => exact hsame (requests_polled s x) hi
  | claims _ => exact hsame rfl hi
  | stops hteardown hnext =>
      refine (Asked.of_next_later hnext hi).imp_right ?_
      rintro ⟨rest, hprocesses⟩
      exact ⟨_, rest, hteardown, hprocesses⟩
  | fails _ _ => exact hsame rfl hi
  | drains _ _ _ => exact hsame rfl hi
  | leaves _ _ => exact hsame rfl hi
  | turns _ _ => exact hsame rfl hi
  | completes _ _ => exact hsame (congrArg (·.map (·.stopRequested)) (processes_reportCompletion _ x)) hi

end Supervisor

end Pipeworks
