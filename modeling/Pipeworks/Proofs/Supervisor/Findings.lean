import Pipeworks.Proofs.Supervisor.History
import Pipeworks.Proofs.Supervisor.Watch

/-!
How a monitor comes to its end. A monitor whose generation nobody has begun to end ends for one of two reasons, and one
poll decides which: the poll saw a process that died, or the time was over and it saw none. What the monitor does from
the first poll to the last report is told by the moves of the history, whatever else happens between them.
-/

namespace Pipeworks

inductive Finding where
  /-- A process died, which the monitor saw as this. -/
  | crashed (m : Member) (p : Subprocess) (status : ExitStatus)
  /-- The time is over. -/
  | elapsed

namespace Supervisor

/-- What the next step of a monitor decides, if it is a poll that decides something. -/
def finding? (s : Supervisor) (y : Generation) : Option Finding :=
  match y.monitor with
  | .checking deadline =>
    match s.sighting? y with
    | some (m, p, status) => some (.crashed m p status)
    | none => if deadline.any (fun d => d ≤ s.now) then some .elapsed else none
  | _ => none

end Supervisor

namespace Deed

def isOf (d : Deed) (g : Nat) : Bool :=
  match d.move with
  | .watch g' _ => g' = g
  | _ => false

theorem isOf_eq_false {d : Deed} {g : Nat} (h : ∀ timerFirst, d.move ≠ .watch g timerFirst) : d.isOf g = false := by
  rw [isOf]
  split
  · rename_i g' timerFirst hmove
    exact decide_eq_false fun heq => h timerFirst (heq ▸ hmove)
  · rfl

def finding? (d : Deed) (g : Nat) : Option Finding :=
  if d.isOf g then (d.before.supervisor.generations[g]?).bind d.before.supervisor.finding? else none

def told (d : Deed) : List Event :=
  d.after.supervisor.bus.broadcast.sent.toList.drop d.before.supervisor.bus.broadcast.sent.size

def record? (x : Scene) (id : PipelineId) : Option RunState := x.supervisor.registry.get? id

/-- Somebody else than the monitor of a generation does to the record of a run what is more than to let it go on. -/
def Meddles (d : Deed) (g : Nat) (id : PipelineId) : Prop :=
  d.isOf g = false ∧ record? d.after id ≠ record? d.before id ∧
    record? d.after id ≠ (record? d.before id).map (·.after [.markRunning])

/-- The run of a generation is failed, unless it has ended before, at a time at which none of its processes was asked to
stop. -/
structure Fails (d : Deed) (y : Generation) (message : String) : Prop where
  record : ∃ r, record? d.before y.pipeline = some r ∧
    record? d.after y.pipeline = some (if r.status.isTerminal then r else { r with status := .failed, message })
  unasked : d.after.supervisor.NoneAsked y.processes

end Deed

namespace History

variable {config : Config} {τ : List Deed} {x x' : Scene} {m : Move} {g : Nat} {y : Generation}

def findings (τ : List Deed) (g : Nat) : List (Deed × Finding) :=
  (span τ g).filterMap fun d => (d.finding? g).map (d, ·)

def told (τ : List Deed) (g : Nat) : List Event :=
  ((span τ g).filter (·.isOf g)).flatMap Deed.told

/-- No worker is asked to stop as long as a producer is alive. -/
def ProducersFirst (τ : List Deed) (g : Nat) (y : Generation) : Prop :=
  ∀ d ∈ span τ g, ∀ i ∈ y.workers, ¬d.before.supervisor.Asked i → d.after.supervisor.Asked i →
    d.before.supervisor.NoneAlive y.producers

def Unmeddled (τ : List Deed) (g : Nat) (y : Generation) : Prop := ∀ d ∈ span τ g, ¬d.Meddles g y.pipeline

/-- Every worker is reported as completed, in order; nothing else is sent but the announcement of the completion. -/
structure Reports (y : Generation) (events : List Event) : Prop where
  each : (events.filter fun e => e.kind = Event.segmentCompleted) =
    (y.members.filter fun m => !m.isProducer).map fun m => Monitor.completionEvent y.pipeline m.segment
  nothing : ∀ e ∈ events, e.kind = Event.segmentCompleted ∨ e = Bus.completion y.pipeline

def Open (x : Scene) (id : PipelineId) : Prop :=
  ∃ r, x.supervisor.registry.get? id = some r ∧ r.status.isTerminal = false ∧ r.completedSegments = 0

def Completed (x : Scene) (y : Generation) : Prop :=
  ∃ r, x.supervisor.registry.get? y.pipeline = some r ∧ r.status = .completed ∧
    r.completedSegments = r.totalSegments ∧ r.totalSegments = y.workers.length

/-- What a monitor has done by its end, after the poll that decided. -/
def Outcome (τ : List Deed) (x : Scene) (g : Nat) (y : Generation) (d : Deed) : Finding → Prop
  | .crashed m p status =>
    d.Fails y (Monitor.crashMessage m p.label status) ∧
      told τ g = [Monitor.crashEvent y.pipeline m.segment (Monitor.crashMessage m p.label status)]
  | .elapsed =>
    ProducersFirst τ g y ∧ Reports y (told τ g) ∧ (Unmeddled τ g y → Completed x y)

structure Underway (τ : List Deed) (x : Scene) (g : Nat) (y : Generation) : Prop where
  silent : told τ g = []
  order : ProducersFirst τ g y
  unmeddled : Unmeddled τ g y → Open x y.pipeline

def Story (τ : List Deed) (x : Scene) (g : Nat) (y : Generation) : Monitor → Prop
  | .failing segment message _ => told τ g = [] ∧ ∃ d m p status, findings τ g = [(d, .crashed m p status)] ∧
      segment = m.segment ∧ message = Monitor.crashMessage m p.label status ∧ d.Fails y message
  | .ended => ∃ d v, findings τ g = [(d, v)] ∧ Outcome τ x g y d v
  | .completing => Underway τ x g y ∧ ∃ d, findings τ g = [(d, .elapsed)]
  | .endingProducers _ => Underway τ x g y ∧ ∃ d, findings τ g = [(d, .elapsed)]
  | .draining _ => Underway τ x g y ∧ ∃ d, findings τ g = [(d, .elapsed)]
  | .endingWorkers _ => Underway τ x g y ∧ ∃ d, findings τ g = [(d, .elapsed)]
  | _ => Underway τ x g y ∧ findings τ g = []

/-- The story of a monitor concerns the pipeline and the members of its generation only. -/
theorem Story.of_crew {stage : Monitor} {y' : Generation} (hcrew : y'.crew = y.crew) (h : Story τ x g y stage) :
    Story τ x g y' stage := by
  obtain ⟨id, ms, runtime, startedAt, monitor, held, cancelled⟩ := y
  obtain ⟨id', ms', runtime', startedAt', monitor', held', cancelled'⟩ := y'
  obtain ⟨rfl, rfl⟩ := Prod.mk.inj hcrew
  cases stage with
  | failing segment message t =>
      obtain ⟨hsilent, d, m, p, status, hfinding, hsegment, hmessage, hfails⟩ := h
      exact ⟨hsilent, d, m, p, status, hfinding, hsegment, hmessage, hfails.record, hfails.unasked⟩
  | ended =>
      obtain ⟨d, v, hfinding, houtcome⟩ := h
      refine ⟨d, v, hfinding, ?_⟩
      cases v with
      | crashed m p status => exact ⟨⟨houtcome.1.record, houtcome.1.unasked⟩, houtcome.2⟩
      | elapsed => exact ⟨houtcome.1, ⟨houtcome.2.1.each, houtcome.2.1.nothing⟩, houtcome.2.2⟩
  | _ => exact ⟨⟨h.1.silent, h.1.order, h.1.unmeddled⟩, h.2⟩

theorem Story.goOn {m : Monitor} {t t' : Teardown} (hteardown : m.teardown? = some t) (h : Story τ x g y m) :
    Story τ x g y (m.goOn t') := by
  cases m with
  | failing segment message u => exact h
  | endingProducers u => exact h
  | endingWorkers u => exact h
  | _ => cases hteardown

/-! ### One more move -/

section More

variable {d : Deed}

theorem findings_append (hg : g < d.before.supervisor.generations.length) :
    findings (τ ++ [d]) g = findings τ g ++ ((d.finding? g).map (d, ·)).toList := by
  rw [findings, span_append hg, List.filterMap_append]
  cases hfinding : d.finding? g <;> simp [findings, hfinding]

theorem told_append (hg : g < d.before.supervisor.generations.length) :
    told (τ ++ [d]) g = told τ g ++ if d.isOf g then d.told else [] := by
  rw [told, span_append hg, List.filter_append, List.flatMap_append]
  cases hof : d.isOf g <;> simp [told, hof]

theorem ProducersFirst.append (h : ProducersFirst τ g y) (hg : g < d.before.supervisor.generations.length)
    (hd : ∀ i ∈ y.workers, ¬d.before.supervisor.Asked i → d.after.supervisor.Asked i →
      d.before.supervisor.NoneAlive y.producers) : ProducersFirst (τ ++ [d]) g y := by
  intro d' hd'
  rw [span_append hg] at hd'
  rcases List.mem_append.mp hd' with hd' | hd'
  · exact h d' hd'
  · obtain rfl := List.mem_singleton.mp hd'
    exact hd

theorem unmeddled_append (hg : g < d.before.supervisor.generations.length) :
    Unmeddled (τ ++ [d]) g y ↔ Unmeddled τ g y ∧ ¬d.Meddles g y.pipeline := by
  rw [Unmeddled, Unmeddled, span_append hg]
  constructor
  · exact fun h => ⟨fun d' hd' => h d' (List.mem_append_left _ hd'), h d (List.mem_append_right _ List.mem_cons_self)⟩
  · rintro ⟨h, hd⟩ d' hd'
    rcases List.mem_append.mp hd' with hd' | hd'
    · exact h d' hd'
    · exact List.mem_singleton.mp hd' ▸ hd

end More

theorem Open.append {d : Deed} {id : PipelineId} (h : Open d.before id) (hof : d.isOf g = false)
    (hmeddles : ¬d.Meddles g id) : Open d.after id := by
  obtain ⟨r, hr, hopen, hnone⟩ := h
  by_cases hsame : Deed.record? d.after id = Deed.record? d.before id
  · exact ⟨r, hsame.trans hr, hopen, hnone⟩
  · have hruns : Deed.record? d.after id = (Deed.record? d.before id).map (·.after [.markRunning]) := by
      by_contra hruns
      exact hmeddles ⟨hof, hsame, hruns⟩
    have hafter : Deed.record? d.after id = some (Transition.markRunning.act r).2 := by
      rw [hruns, show Deed.record? d.before id = some r from hr]
      rfl
    refine ⟨_, hafter, ?_, ?_⟩
    · rw [Transition.isTerminal_act, hopen]
      rfl
    · rw [Transition.completedSegments_act, hnone]
      rfl

/-! ### Moves of others -/

section Others

variable {d : Deed}

theorem findings_of_others (hg : g < d.before.supervisor.generations.length) (hof : d.isOf g = false) :
    findings (τ ++ [d]) g = findings τ g := by
  rw [findings_append hg, Deed.finding?, hof]
  exact List.append_nil _

theorem told_of_others (hg : g < d.before.supervisor.generations.length) (hof : d.isOf g = false) :
    told (τ ++ [d]) g = told τ g := by
  rw [told_append hg, hof]
  exact List.append_nil _

theorem ProducersFirst.others (h : ProducersFirst τ g y) (hg : g < d.before.supervisor.generations.length)
    (hfound : d.before.supervisor.cores[g]? = some y)
    (hendures : d.before.supervisor.Endures d.after.supervisor y.pipeline g) : ProducersFirst (τ ++ [d]) g y := by
  refine h.append hg fun i hi hbefore hafter => absurd ?_ hbefore
  refine hendures.asked i ?_ hafter
  rw [Supervisor.crew_of_core hfound]
  exact Supervisor.workers_subset y hi

theorem Completed.others (h : Completed d.before y)
    (hendures : d.before.supervisor.Endures d.after.supervisor y.pipeline g) : Completed d.after y := by
  obtain ⟨r, hr, hstatus, hcount, htotal⟩ := h
  obtain ⟨ts, hts⟩ := hendures.record
  refine ⟨r, ?_, hstatus, hcount, htotal⟩
  have hterminal : r.status.isTerminal = true := by
    rw [hstatus]
    rfl
  rw [hts, hr, Option.map_some, RunState.after_of_terminal hterminal]

variable (hg : g < d.before.supervisor.generations.length) (hof : d.isOf g = false)
  (hfound : d.before.supervisor.cores[g]? = some y)
  (hendures : d.before.supervisor.Endures d.after.supervisor y.pipeline g)

include hg hof hfound hendures

theorem Underway.others (h : Underway τ d.before g y) : Underway (τ ++ [d]) d.after g y := by
  refine ⟨(told_of_others hg hof).trans h.silent, h.order.others hg hfound hendures, fun hunmeddled => ?_⟩
  obtain ⟨hpast, hnow⟩ := (unmeddled_append hg).mp hunmeddled
  exact (h.unmeddled hpast).append hof hnow

theorem Story.others {stage : Monitor} (h : Story τ d.before g y stage) : Story (τ ++ [d]) d.after g y stage := by
  have hfindings : findings (τ ++ [d]) g = findings τ g := findings_of_others hg hof
  have htold : told (τ ++ [d]) g = told τ g := told_of_others hg hof
  have hunderway (h : Underway τ d.before g y) := h.others hg hof hfound hendures
  cases stage with
  | failing segment message t =>
      obtain ⟨hsilent, d', m, p, status, hfinding, hrest⟩ := h
      exact ⟨htold.trans hsilent, d', m, p, status, hfindings.trans hfinding, hrest⟩
  | ended =>
      obtain ⟨d', v, hfinding, houtcome⟩ := h
      refine ⟨d', v, hfindings.trans hfinding, ?_⟩
      cases v with
      | crashed m p status => exact ⟨houtcome.1, htold.trans houtcome.2⟩
      | elapsed =>
          obtain ⟨horder, hreports, hcompleted⟩ := houtcome
          refine ⟨horder.others hg hfound hendures, htold ▸ hreports, fun hunmeddled => ?_⟩
          exact (hcompleted ((unmeddled_append hg).mp hunmeddled).1).others hendures
  | fresh => exact ⟨hunderway h.1, hfindings.trans h.2⟩
  | sleeping wake deadline => exact ⟨hunderway h.1, hfindings.trans h.2⟩
  | checking deadline => exact ⟨hunderway h.1, hfindings.trans h.2⟩
  | broken => exact ⟨hunderway h.1, hfindings.trans h.2⟩
  | completing => exact ⟨hunderway h.1, h.2.imp fun _ hfinding => hfindings.trans hfinding⟩
  | endingProducers t => exact ⟨hunderway h.1, h.2.imp fun _ hfinding => hfindings.trans hfinding⟩
  | draining limit => exact ⟨hunderway h.1, h.2.imp fun _ hfinding => hfindings.trans hfinding⟩
  | endingWorkers t => exact ⟨hunderway h.1, h.2.imp fun _ hfinding => hfindings.trans hfinding⟩

end Others

/-! ### Moves of the monitor -/

theorem toList_sent_ingest (b : Bus) {e : Event} (hcategory : e.category = .lifecycle) :
    ∃ more, (b.ingest e).2.broadcast.sent.toList = b.broadcast.sent.toList ++ e :: more ∧
      ((Bus.apply b.registry e).1 = false → more = []) ∧ ∀ e' ∈ more, e' = Bus.completion e.run := by
  rw [Bus.ingest, hcategory]
  dsimp only
  cases hcompleted : (Bus.apply b.registry e).1 with
  | false => exact ⟨[], by simp [Bus.publish, Broadcast.send], fun _ => rfl, by simp⟩
  | true =>
      refine ⟨[Bus.completion e.run], by simp [Bus.publish, Broadcast.send], by simp, by simp⟩

theorem told_crash (s : Supervisor) (id : PipelineId) (segment : Nat) (message : String) :
    (s.ingest (Monitor.crashEvent id segment message)).2.bus.broadcast.sent.toList =
      s.bus.broadcast.sent.toList ++ [Monitor.crashEvent id segment message] := by
  obtain ⟨more, hsent, hnothing, -⟩ := toList_sent_ingest s.bus (e := Monitor.crashEvent id segment message) rfl
  rw [hnothing rfl] at hsent
  exact hsent

theorem told_completions (ms : List Member) (id : PipelineId) (s : Supervisor) :
    ∃ events, (ms.foldl (fun s m => (s.ingest (Monitor.completionEvent id m.segment)).2) s).bus.broadcast.sent.toList =
        s.bus.broadcast.sent.toList ++ events ∧
      (events.filter fun e => e.kind = Event.segmentCompleted) = ms.map (fun m => Monitor.completionEvent id m.segment) ∧
      ∀ e ∈ events, e.kind = Event.segmentCompleted ∨ e = Bus.completion id := by
  induction ms generalizing s with
  | nil => exact ⟨[], by simp, rfl, by simp⟩
  | cons m ms ih =>
      obtain ⟨more, hsent, -, hmore⟩ := toList_sent_ingest s.bus (e := Monitor.completionEvent id m.segment) rfl
      obtain ⟨events, hevents, hfilter, hkinds⟩ := ih (s.ingest (Monitor.completionEvent id m.segment)).2
      have hother : (more.filter fun e => e.kind = Event.segmentCompleted) = [] := by
        refine List.filter_eq_nil_iff.mpr fun e he => ?_
        rw [hmore e he]
        change ¬decide (Event.completed = Event.segmentCompleted) = true
        decide
      have hown : ((Monitor.completionEvent id m.segment :: more).filter fun e => e.kind = Event.segmentCompleted) =
          [Monitor.completionEvent id m.segment] := by
        have hkind : (Monitor.completionEvent id m.segment).kind = Event.segmentCompleted := rfl
        rw [List.filter_cons, if_pos (decide_eq_true hkind), hother]
      have hfirst : (s.ingest (Monitor.completionEvent id m.segment)).2.bus.broadcast.sent.toList =
          s.bus.broadcast.sent.toList ++ Monitor.completionEvent id m.segment :: more := hsent
      refine ⟨Monitor.completionEvent id m.segment :: more ++ events, ?_, ?_, fun e he => ?_⟩
      · rw [List.foldl_cons, hevents, hfirst, List.append_assoc]
      · rw [List.filter_append, hown, hfilter]
        rfl
      · rcases List.mem_append.mp he with he | he
        · rcases List.mem_cons.mp he with rfl | he
          · exact .inl rfl
          · exact .inr (hmore e he)
        · exact hkinds e he

theorem told_eq {d : Deed} {events : List Event}
    (h : d.after.supervisor.bus.broadcast.sent.toList = d.before.supervisor.bus.broadcast.sent.toList ++ events) :
    d.told = events := by
  rw [Deed.told, h, ← Array.length_toList, List.drop_left]

section Own

variable {s : Supervisor} {z : Generation} {d : Deed} {stage : Monitor}

/-- A monitor that does not shut down the processes of a failed run asks a worker to stop only when no producer is
alive. -/
theorem order_tick (htick : x.supervisor.Tick g z s stage) {stakes : List Stake}
    (hallotted : x.supervisor.Allotted stakes) (hw : x.supervisor.Watched g z.core)
    (hnot : ∀ segment message t, z.monitor ≠ .failing segment message t) :
    ∀ i ∈ z.core.workers, ¬x.supervisor.Asked i → s.Asked i → x.supervisor.NoneAlive z.core.producers := by
  intro i hi hbefore hafter
  obtain ⟨t, rest, hteardown, hprocesses⟩ := (htick.asked hafter).resolve_left hbefore
  have hattained : x.supervisor.Attained z.core z.monitor := hw.attained
  cases hmonitor : z.monitor with
  | failing segment message t => exact absurd hmonitor (hnot segment message t)
  | endingProducers u =>
      rw [hmonitor] at hteardown hattained
      obtain rfl := Option.some.inj hteardown
      exact absurd (hattained.2.1 (hprocesses ▸ List.mem_cons_self)) (hallotted.notMem_producers hw.found hi)
  | endingWorkers u =>
      rw [hmonitor] at hattained
      exact hattained.1
  | _ =>
      rw [hmonitor] at hteardown
      cases hteardown

theorem fails_of_finds {message : String} {segment : Nat} {t : Teardown} (hw : x.supervisor.Watched g z.core)
    {deadline : Option Moment} (hmonitor : z.monitor = .checking deadline)
    (hbefore : d.before = x) (hafter : d.after.supervisor =
      (((x.supervisor.polled z).setRegistry (x.supervisor.registry.fail z.pipeline message).2).setHeld g true).setMonitor
        g (.failing segment message t)) : d.Fails z.core message := by
  have hattained : x.supervisor.Attained z.core z.monitor := hw.attained
  rw [hmonitor] at hattained
  obtain ⟨r, hr, -⟩ := hw.record
  refine ⟨⟨r, hbefore ▸ hr, ?_⟩, fun i hi hasked => hattained i hi ?_⟩
  · rw [Deed.record?, hafter]
    have hturn := (Registry.Turns.call (.fail message) x.supervisor.registry z.pipeline).own
    rw [show x.supervisor.registry.get? z.pipeline = some r from hr, Option.map_some] at hturn
    refine hturn.trans (congrArg some ?_)
    change ((Transition.fail message).act r).2 = _
    cases hterminal : r.status.isTerminal <;> simp [Transition.act_fail, hterminal]
  · rw [hafter] at hasked
    have hrequests := Supervisor.requests_polled x.supervisor z
    rw [Supervisor.Asked, ← hrequests]
    exact hasked

/-- The last reports of a monitor complete a run of which no segment was counted. -/
theorem completed_of_completes (hw : x.supervisor.Watched g z.core) (hopen : Open x z.pipeline) :
    Completed { x with supervisor := (x.supervisor.endMonitor g).reportCompletion z } z.core := by
  obtain ⟨r, hr, hterminal, hnone⟩ := hopen
  obtain ⟨r', hr', htotal⟩ := hw.record
  obtain rfl := Option.some.inj (hr.symm.trans hr')
  have hturns := (Supervisor.turns_reportCompletion (x.supervisor.endMonitor g) z).own
  have hlength : (z.members.filter fun m => !m.isProducer).length = z.core.workers.length := (List.length_map _).symm
  have hbefore : (x.supervisor.endMonitor g).registry.get? z.pipeline = some r := hr
  rw [hbefore, Option.map_some, hlength,
    RunState.after_countSegments hw.manned hterminal (by rw [htotal, hnone, Nat.zero_add])] at hturns
  exact ⟨_, hturns, rfl, rfl, htotal⟩

variable (hreach : Scene.Reachable config (·.isPatient = true) x)
  (hz : x.supervisor.generations[g]? = some z) (hw : x.supervisor.Watched g z.core)
  (htick : x.supervisor.Tick g z s stage) {timerFirst : Bool}
  (hd : d = ⟨x, .watch g timerFirst, { x with supervisor := s }⟩)

include hz hd

theorem findings_of_own : findings (τ ++ [d]) g = findings τ g ++ ((x.supervisor.finding? z).map (d, ·)).toList := by
  subst hd
  have hg : g < x.supervisor.generations.length := (List.getElem?_eq_some_iff.mp hz).1
  rw [findings_append hg, Deed.finding?, Deed.isOf, hz]
  simp

theorem told_of_own {events : List Event}
    (h : s.bus.broadcast.sent.toList = x.supervisor.bus.broadcast.sent.toList ++ events) :
    told (τ ++ [d]) g = told τ g ++ events := by
  subst hd
  have hg : g < x.supervisor.generations.length := (List.getElem?_eq_some_iff.mp hz).1
  rw [told_append hg, Deed.isOf, told_eq h]
  simp

include hreach hw htick

theorem Underway.own (h : Underway τ x g z.core) (hbus : s.bus = x.supervisor.bus)
    (hnot : ∀ segment message t, z.monitor ≠ .failing segment message t) :
    Underway (τ ++ [d]) { x with supervisor := s } g z.core := by
  have hsilent : told (τ ++ [d]) g = told τ g ++ [] := told_of_own hz hd (by rw [hbus, List.append_nil])
  subst hd
  have hg : g < x.supervisor.generations.length := (List.getElem?_eq_some_iff.mp hz).1
  refine ⟨by rw [hsilent, h.silent]; rfl, h.order.append hg ?_, fun hunmeddled => ?_⟩
  · exact order_tick htick hreach.allotted hw hnot
  · obtain ⟨r, hr, hopen⟩ := h.unmeddled ((unmeddled_append hg).mp hunmeddled).1
    exact ⟨r, by rw [Supervisor.registry, hbus]; exact hr, hopen⟩

theorem Story.silent (h : Story τ x g z.core z.monitor) (hbus : s.bus = x.supervisor.bus)
    (hundecided : x.supervisor.finding? z = none) (hgoes : z.monitor ≠ .ended) :
    Story (τ ++ [d]) { x with supervisor := s } g z.core z.monitor := by
  have hfindings : findings (τ ++ [d]) g = findings τ g := by
    rw [findings_of_own hz hd, hundecided]
    exact List.append_nil _
  have htold : told (τ ++ [d]) g = told τ g ++ [] := told_of_own hz hd (by rw [hbus, List.append_nil])
  rw [List.append_nil] at htold
  have hunderway (hpast : Underway τ x g z.core) (hnot : ∀ segment message t, z.monitor ≠ .failing segment message t) :
      Underway (τ ++ [d]) { x with supervisor := s } g z.core := hpast.own hreach hz hw htick hd hbus hnot
  cases hmonitor : z.monitor with
  | failing segment message t =>
      rw [hmonitor] at h
      obtain ⟨hpast, d', m, p, status, hfinding, hrest⟩ := h
      exact ⟨htold.trans hpast, d', m, p, status, hfindings.trans hfinding, hrest⟩
  | ended => exact absurd hmonitor hgoes
  | fresh =>
      rw [hmonitor] at h
      exact ⟨hunderway h.1 (by simp [hmonitor]), hfindings.trans h.2⟩
  | sleeping wake deadline =>
      rw [hmonitor] at h
      exact ⟨hunderway h.1 (by simp [hmonitor]), hfindings.trans h.2⟩
  | checking deadline =>
      rw [hmonitor] at h
      exact ⟨hunderway h.1 (by simp [hmonitor]), hfindings.trans h.2⟩
  | broken =>
      rw [hmonitor] at h
      exact ⟨hunderway h.1 (by simp [hmonitor]), hfindings.trans h.2⟩
  | _ =>
      rw [hmonitor] at h
      exact ⟨hunderway h.1 (by simp [hmonitor]), h.2.imp fun _ hfinding => hfindings.trans hfinding⟩

/-- A step of the monitor adds to its story what belongs to the stage that it leads to. -/
theorem Story.own (hcancelled : z.cancelled = false) (h : Story τ x g z.core z.monitor) :
    Story (τ ++ [d]) { x with supervisor := s } g z.core stage := by
  have hfindings : findings (τ ++ [d]) g = findings τ g ++ ((x.supervisor.finding? z).map (d, ·)).toList :=
    findings_of_own hz hd
  have hsilent (hbus : s.bus = x.supervisor.bus) (hundecided : x.supervisor.finding? z = none)
      (hgoes : z.monitor ≠ .ended) : Story (τ ++ [d]) { x with supervisor := s } g z.core z.monitor :=
    h.silent hreach hz hw htick hd hbus hundecided hgoes
  -- a poll is what decides, and only the last step of either end sends something
  cases htick with
  | begins hmonitor hstage =>
      have hpast := hsilent rfl (by rw [Supervisor.finding?, hmonitor]) (by simp [hmonitor])
      rw [hmonitor] at hpast
      obtain hbroken | ⟨wake, deadline, hsleeping⟩ :=
        Monitor.begin_cases x.supervisor.now (x.supervisor.config.pollInterval z.runtime) z.runtime
      · rw [hstage, hbroken] at hpast ⊢
        exact hpast
      · rw [hstage, hsleeping] at hpast ⊢
        exact hpast
  | quits _ hquits =>
      rw [hcancelled] at hquits
      cases hquits
  | wakes hmonitor _ =>
      have hpast := hsilent rfl (by rw [Supervisor.finding?, hmonitor]) (by simp [hmonitor])
      rw [hmonitor] at hpast
      exact hpast
  | @finds deadline m p status message hmonitor hsighting hmessage =>
      rw [hmonitor] at h
      have htold : told (τ ++ [d]) g = told τ g ++ [] := told_of_own hz hd (List.append_nil _).symm
      refine ⟨by rw [htold, h.1.silent]; rfl, d, m, p, status, ?_, rfl, hmessage, ?_⟩
      · rw [hfindings, h.2, Supervisor.finding?, hmonitor, hsighting]
        rfl
      · subst hd
        exact fails_of_finds hw hmonitor rfl rfl
  | elapses hmonitor hsighting hover =>
      rw [hmonitor] at h
      refine ⟨h.1.own hreach hz hw (.elapses hmonitor hsighting hover) hd rfl (by simp [hmonitor]), d, ?_⟩
      rw [hfindings, h.2, Supervisor.finding?, hmonitor, hsighting]
      simp only [hover, if_pos]
      rfl
  | @sleeps deadline m hmonitor hsighting hover hstage =>
      have hundecided : x.supervisor.finding? z = none := by
        rw [Supervisor.finding?, hmonitor, hsighting]
        simp only [hover]
        rfl
      have hpast := hsilent rfl hundecided (by simp [hmonitor])
      rw [hmonitor] at hpast
      obtain hbroken | ⟨wake, hsleeping⟩ :=
        Monitor.sleep_cases x.supervisor.now (x.supervisor.config.pollInterval z.runtime) deadline
      · rw [hstage, hbroken] at hpast ⊢
        exact hpast
      · rw [hstage, hsleeping] at hpast ⊢
        exact hpast
  | claims hmonitor =>
      have hpast := hsilent rfl (by rw [Supervisor.finding?, hmonitor]) (by simp [hmonitor])
      rw [hmonitor] at hpast
      exact hpast
  | @stops t t' s₁ hteardown hnext =>
      have hbus : s₁.bus = x.supervisor.bus := by
        obtain ⟨ps, rfl⟩ := Supervisor.eq_of_next_later hnext
        rfl
      have hundecided : x.supervisor.finding? z = none := by
        rw [Supervisor.finding?]
        cases hmonitor : z.monitor with
        | checking deadline =>
            rw [hmonitor] at hteardown
            cases hteardown
        | _ => rfl
      refine (hsilent hbus hundecided fun hended => ?_).goOn hteardown
      rw [hended] at hteardown
      cases hteardown
  | @fails segment message t hmonitor hempty =>
      rw [hmonitor] at h
      have hundecided : x.supervisor.finding? z = none := by rw [Supervisor.finding?, hmonitor]
      rw [hundecided, Option.map_none, Option.toList_none, List.append_nil] at hfindings
      obtain ⟨hpast, d', m, p, status, hfinding, rfl, rfl, hfails⟩ := h
      -- the poll that found the process is the one that failed the run, and only now an event tells of it
      refine ⟨d', .crashed m p status, hfindings.trans hfinding, hfails, ?_⟩
      rw [told_of_own hz hd (told_crash (x.supervisor.endMonitor g) z.pipeline _ _), hpast]
      rfl
  | drains hmonitor hempty _ =>
      have hpast := hsilent rfl (by rw [Supervisor.finding?, hmonitor]) (by simp [hmonitor])
      rw [hmonitor] at hpast
      exact hpast
  | leaves _ hleaves =>
      rw [hcancelled] at hleaves
      cases hleaves
  | turns hmonitor _ =>
      have hpast := hsilent rfl (by rw [Supervisor.finding?, hmonitor]) (by simp [hmonitor])
      rw [hmonitor] at hpast
      exact hpast
  | @completes t hmonitor hempty =>
      rw [hmonitor] at h
      have hundecided : x.supervisor.finding? z = none := by rw [Supervisor.finding?, hmonitor]
      rw [hundecided, Option.map_none, Option.toList_none, List.append_nil] at hfindings
      obtain ⟨hpast, d', hfinding⟩ := h
      obtain ⟨events, hevents, heach, hnothing⟩ := told_completions (z.members.filter fun m => !m.isProducer) z.pipeline
        (x.supervisor.endMonitor g)
      have htold : told (τ ++ [d]) g = told τ g ++ events := told_of_own hz hd hevents
      rw [hpast.silent, List.nil_append] at htold
      refine ⟨d', .elapsed, hfindings.trans hfinding, ?_, htold ▸ ⟨heach, hnothing⟩, fun hunmeddled => ?_⟩
      · -- to report asks nobody to stop
        have hasked := order_tick (.completes hmonitor hempty) hreach.allotted hw (by simp [hmonitor])
        subst hd
        exact hpast.order.append (List.getElem?_eq_some_iff.mp hz).1 hasked
      · subst hd
        have hg : g < x.supervisor.generations.length := (List.getElem?_eq_some_iff.mp hz).1
        exact completed_of_completes hw (hpast.unmeddled ((unmeddled_append hg).mp hunmeddled).1)

end Own

/-! ### The whole story -/

/-- The story of a generation that stands, at every stage of its monitor. -/
theorem story (h : History config τ x) {id : PipelineId} (hg : x.Stands id g) (hy : x.supervisor.cores[g]? = some y) :
    Story τ x g y y.monitor := by
  induction h generalizing y with
  | start =>
      rcases hg with hactive | hstake
      · exact absurd hactive List.not_mem_nil
      · exact absurd hstake List.not_mem_nil
  | @move τ x x' m hpast hm hplay ih =>
      have hreach := hpast.reachable
      rcases hg.before hreach hm hplay with ⟨z, hnew, -, hsets⟩ | ⟨hold, hothers⟩
      · -- the generation was just made, and nothing has happened since
        obtain rfl := Option.some.inj (hy.symm.trans hsets.found)
        have hspan : span (τ ++ [⟨x, m, x'⟩]) g = [] := hpast.span_eq_nil hnew.ge
        rw [hsets.fresh]
        refine ⟨⟨?_, ?_, fun _ => ⟨_, hsets.record, rfl, rfl⟩⟩, ?_⟩
        · rw [told, hspan]
          rfl
        · rw [ProducersFirst, hspan]
          exact fun d hd => absurd hd List.not_mem_nil
        · rw [findings, hspan]
          rfl
      · obtain ⟨z, hz, hcore, hid, hcancelled⟩ := hold.core hreach
        have hstory := ih hold hcore
        have hw := hold.watched hreach hcore
        by_cases hwatch : ∃ timerFirst, m = .watch g timerFirst
        · obtain ⟨timerFirst, rfl⟩ := hwatch
          obtain ⟨s, hs, rfl⟩ := Option.map_eq_some_iff.mp hplay
          obtain ⟨stage, htick⟩ := Supervisor.tick_of_stepMonitor hz hs
          have hw' := hw.stepMonitor hz hreach.sound.honest hreach.allotted hcancelled hs htick
          obtain rfl := Option.some.inj (hy.symm.trans hw'.found)
          have hcrew : ({ z.core with monitor := stage } : Generation).crew = z.core.crew := rfl
          exact Story.of_crew hcrew (hstory.own hreach hz hw htick rfl hcancelled)
        · have hendures := hothers fun timerFirst hm => hwatch ⟨timerFirst, hm⟩
          subst hid
          obtain rfl := Option.some.inj (hy.symm.trans (hendures.core.trans hcore))
          have hof : (Deed.isOf ⟨x, m, x'⟩ g) = false := Deed.isOf_eq_false fun timerFirst hm => hwatch ⟨timerFirst, hm⟩
          exact hstory.others (List.getElem?_eq_some_iff.mp hz).1 hof hcore hendures

/-- Who meddles with the run of a generation that stands: an event that comes in, the monitor of another generation of
the pipeline, or a call that ends the run. -/
theorem interferes_of_meddles (h : History config τ x) {id : PipelineId} (hg : x.Stands id g) {d : Deed}
    (hd : d ∈ span τ g) (hmeddles : d.Meddles g id) : d.before.Interferes g id d.move := by
  obtain ⟨hreach, hpatient, hplay, hstands⟩ := h.stood hg d hd
  obtain ⟨hof, hchanged, -⟩ := hmeddles
  refine hstands.interferes hreach hpatient hplay (fun timerFirst hwatch => ?_) hchanged
  rw [Deed.isOf, hwatch] at hof
  simp at hof

/-- What the end of a monitor means, for a generation that nobody has begun to end: neither was its monitor cancelled
nor has a call taken it out of the active ones to end it later. The run of its pipeline has ended, and no process of it
is alive. One poll has decided. If it saw a process that died, it failed the run, unless that had ended before, at a
time at which no process of the generation was asked to stop, and the one event that the monitor sent tells of that
failure. If the time was over, no worker was asked to stop as long as a producer was alive, and each worker was reported
as completed once. This completed the run, unless somebody else had counted a segment of it or ended it: an event that
came in, the monitor of another generation of the pipeline, or a call. -/
theorem ended_monitor_decided (h : History config τ x) (hy : x.supervisor.generations[g]? = some y)
    (hended : y.monitor = .ended) (hcancelled : y.cancelled = false) (hdoomed : ¬x.Doomed g) :
    x.supervisor.HasEnded y.pipeline ∧ x.supervisor.NoneAlive y.processes ∧
      ∃ d v, findings τ g = [(d, v)] ∧
        match v with
        | .crashed m p status =>
          d.Fails y (Monitor.crashMessage m p.label status) ∧
            told τ g = [Monitor.crashEvent y.pipeline m.segment (Monitor.crashMessage m p.label status)]
        | .elapsed =>
          ProducersFirst τ g y ∧ Reports y (told τ g) ∧
            (Completed x y ∨ ∃ d ∈ span τ g, d.Meddles g y.pipeline ∧ d.before.Interferes g y.pipeline d.move) := by
  have hreach := h.reachable
  have hstands := Scene.stands_of_not_cancelled hreach hy hcancelled hdoomed
  have hcore : x.supervisor.cores[g]? = some y.core := Supervisor.getElem?_cores hy
  have hattained : x.supervisor.Attained y.core y.monitor := (hstands.watched hreach hcore).attained
  have hstory : Story τ x g y.core y.monitor := h.story hstands hcore
  have hcrew : y.crew = y.core.crew := rfl
  replace hstory := Story.of_crew hcrew hstory
  rw [hended] at hattained hstory
  obtain ⟨d, v, hfinding, houtcome⟩ := hstory
  refine ⟨hattained.1, hattained.2, d, v, hfinding, ?_⟩
  cases v with
  | crashed m p status => exact houtcome
  | elapsed =>
      obtain ⟨horder, hreports, hcompleted⟩ := houtcome
      refine ⟨horder, hreports, ?_⟩
      by_cases hunmeddled : Unmeddled τ g y
      · exact .inl (hcompleted hunmeddled)
      · obtain ⟨d', hd', hmeddles⟩ : ∃ d' ∈ span τ g, d'.Meddles g y.pipeline := by
          simpa [Unmeddled] using hunmeddled
        exact .inr ⟨d', hd', hmeddles, h.interferes_of_meddles hstands hd' hmeddles⟩

/-- A pipeline that may run for a second does so, and its monitor reports its one segment. -/
theorem runtime_over_decided : ∃ τ x y, History {} τ x ∧ x.supervisor.generations[0]? = some y ∧ y.monitor = .ended ∧
    y.cancelled = false ∧ ¬x.Doomed 0 ∧ x.supervisor.HasEnded y.pipeline ∧ x.supervisor.NoneAlive y.processes ∧
      ∃ d v, findings τ 0 = [(d, v)] := by
  let ms := Scene.starting ⟨some (.ofSecs 1), none⟩ ++ Scene.runningOut ++ [.watch 0 false]
  obtain ⟨x, y, hplayed, hy, hended, hcancelled, hcalls⟩ :
      ∃ x y, ms.foldlM Scene.play (.ofConfig {}) = some x ∧ x.supervisor.generations[0]? = some y ∧
        y.monitor = .ended ∧ y.cancelled = false ∧ x.calls = [] :=
    ⟨_, _, rfl, rfl, rfl, rfl, rfl⟩
  have hms : ∀ m ∈ ms, m.isPatient = true := by simp [ms, Scene.starting, Scene.runningOut, Move.isPatient]
  obtain ⟨τ, h⟩ := exists_of_plays ms hms .start hplayed
  have hdoomed : ¬x.Doomed 0 := by simp [Scene.Doomed, Scene.stakes, hcalls]
  obtain ⟨hhas, hnone, d, v, hfinding, -⟩ := ended_monitor_decided h hy hended hcancelled hdoomed
  exact ⟨τ, x, y, h, hy, hended, hcancelled, hdoomed, hhas, hnone, d, v, hfinding⟩

end History

end Pipeworks
