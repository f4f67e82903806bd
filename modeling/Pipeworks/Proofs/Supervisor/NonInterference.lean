import Pipeworks.Proofs.Supervisor.Confinement

/-!
Pipelines do not interfere with each other. What is told of a pipeline depends on its own record, its mark, its active
generation and the processes of that generation, and a step for another pipeline changes none of these, since no process
belongs to two. So whatever happens to other pipelines, and however long, a pipeline is left as it was.
-/

namespace Pipeworks

open Relation (ReflTransGen)

namespace Member

variable {α : Type} {P : Subprocess → Prop} {is : List Nat} {ps qs : List Subprocess}

def AgreeOn (P : Subprocess → Prop) (is : List Nat) (ps qs : List Subprocess) : Prop :=
  ∀ i ∈ is, qs[i]? = ps[i]? ∧ ∀ p ∈ ps[i]?, P p

theorem AgreeOn.set (h : AgreeOn P is ps qs) (i : Nat) {p : Subprocess} (hp : P p) :
    AgreeOn P is (ps.set i p) (qs.set i p) := by
  intro j hj
  obtain ⟨hsame, hsort⟩ := h j hj
  rw [List.getElem?_set', List.getElem?_set', hsame]
  refine ⟨rfl, fun q hq => ?_⟩
  split_ifs at hq
  · obtain ⟨-, -, rfl⟩ := Option.map_eq_some_iff.mp hq
    exact hp
  · exact hsort q hq

theorem AgreeOn.findAnswer {ask ask' : Subprocess → Option α × Subprocess} (h : AgreeOn P is ps qs)
    (hask : ∀ p, P p → ask' p = ask p ∧ P (ask p).2) (ms : List Member) (hms : ∀ m ∈ ms, m.process ∈ is) :
    (findAnswer ask' ms qs).1 = (findAnswer ask ms ps).1 ∧
      AgreeOn P is (findAnswer ask ms ps).2 (findAnswer ask' ms qs).2 := by
  induction ms generalizing ps qs with
  | nil => exact ⟨rfl, h⟩
  | cons m ms ih =>
      obtain ⟨hsame, hsort⟩ := h m.process (hms m List.mem_cons_self)
      have hrest : ∀ m ∈ ms, m.process ∈ is := fun m hm => hms m (List.mem_cons_of_mem _ hm)
      rw [Member.findAnswer, Member.findAnswer, hsame]
      cases hp : ps[m.process]? with
      | none => exact ih h hrest
      | some p =>
          obtain ⟨heq, hafter⟩ := hask p (hsort p hp)
          simp only [heq]
          rcases hanswer : ask p with ⟨_ | a, q⟩ <;> rw [hanswer] at hafter
          · exact ih (h.set m.process hafter) hrest
          · exact ⟨rfl, h.set m.process hafter⟩

theorem AgreeOn.anyOf {ask ask' : Subprocess → Bool × Subprocess} (h : AgreeOn P is ps qs)
    (hask : ∀ p, P p → ask' p = ask p ∧ P (ask p).2) (ms : List Member) (hms : ∀ m ∈ ms, m.process ∈ is) :
    (anyOf ask' ms qs).1 = (anyOf ask ms ps).1 ∧ AgreeOn P is (anyOf ask ms ps).2 (anyOf ask' ms qs).2 := by
  have haffirm (p : Subprocess) (hp : P p) :
      ((if (ask' p).1 then some () else none, (ask' p).2) : Option Unit × Subprocess) =
        (if (ask p).1 then some () else none, (ask p).2) ∧ P (ask p).2 := by
    rw [(hask p hp).1]
    exact ⟨rfl, (hask p hp).2⟩
  obtain ⟨hanswer, hafter⟩ := h.findAnswer haffirm ms hms
  exact ⟨congrArg Option.isSome hanswer, hafter⟩

end Member

namespace Supervisor

variable {s s' s'' : Supervisor} {id id' : PipelineId} {own : Nat → Prop}

/-- Nothing of a pipeline has changed: neither its record, nor its mark, nor its active generation, nor any of its
generations, nor their processes and whether they have ended. -/
structure Untouched (s s' : Supervisor) (id : PipelineId) : Prop where
  record : s'.registry.get? id = s.registry.get? id
  starting : id ∈ s'.starting ↔ id ∈ s.starting
  active : s'.generation? id = s.generation? id
  generations : ∀ (g : Nat) (x : Generation), x.pipeline = id →
    (s'.generations[g]? = some x ↔ s.generations[g]? = some x)
  processes : ∀ (g : Nat) (x : Generation), s.generations[g]? = some x → x.pipeline = id →
    ∀ i ∈ x.processes, s'.processes[i]? = s.processes[i]?
  ends : ∀ (g : Nat) (x : Generation), s.generations[g]? = some x → x.pipeline = id →
    ∀ i ∈ x.processes, ∀ p ∈ s.processes[i]?, p.child.status? s'.now = p.child.status? s.now

namespace Untouched

theorem refl (s : Supervisor) (id : PipelineId) : s.Untouched s id :=
  ⟨rfl, Iff.rfl, rfl, fun _ _ _ => Iff.rfl, fun _ _ _ _ _ _ => rfl, fun _ _ _ _ _ _ _ _ => rfl⟩

theorem trans (h : s.Untouched s' id) (h' : s'.Untouched s'' id) : s.Untouched s'' id where
  record := h'.record.trans h.record
  starting := h'.starting.trans h.starting
  active := h'.active.trans h.active
  generations g x hid := (h'.generations g x hid).trans (h.generations g x hid)
  processes g x hx hid i hi :=
    (h'.processes g x ((h.generations g x hid).mpr hx) hid i hi).trans (h.processes g x hx hid i hi)
  ends g x hx hid i hi p hp := by
    have hp' : p ∈ s'.processes[i]? := h.processes g x hx hid i hi ▸ hp
    exact (h'.ends g x ((h.generations g x hid).mpr hx) hid i hi p hp').trans (h.ends g x hx hid i hi p hp)

end Untouched

theorem Confined.untouched (h : Confined id own s s') (hne : id' ≠ id)
    (hforeign : ∀ (g : Nat) (x : Generation), s.generations[g]? = some x → x.pipeline = id' →
      ∀ i ∈ x.processes, i < s.processes.length ∧ ¬own i) : s.Untouched s' id' where
  record := h.records id' hne
  starting := by
    have hmem := congrArg (id' ∈ ·) h.starting
    simpa [hne] using hmem
  active := by
    have hfind (runs : List (PipelineId × Nat)) :
        (runs.filter (·.1 ≠ id)).find? (·.1 = id') = runs.find? (·.1 = id') := by
      rw [List.find?_filter]
      congr 1
      funext run
      by_cases hrun : run.1 = id' <;> simp [hrun, hne]
    rw [generation?, generation?, ← hfind, h.active, hfind]
  generations g x hid := h.generations g x (hid ▸ hne)
  processes g x hx hid i hi := h.processes i (hforeign g x hx hid i hi).1 (hforeign g x hx hid i hi).2
  ends _ _ _ _ _ _ _ _ := by rw [h.now]

/-! ### What is told of a pipeline -/

/-- What a status call that is made now would answer, but for how long the processes have been there. -/
def outlook (s : Supervisor) (id : PipelineId) : StatusReport :=
  { (s.report id (s.registry.get? id)).1 with uptime := none }

theorem fst_statusOf_of_agree {x : Generation} {hasFailed : Bool}
    (h : Member.AgreeOn (fun p => p.child.status? s'.now = p.child.status? s.now) x.processes s.processes
      s'.processes) : (s'.statusOf x hasFailed).1 = (s.statusOf x hasFailed).1 := by
  have hpoll (p : Subprocess) (hp : p.child.status? s'.now = p.child.status? s.now) :
      p.poll s'.now = p.poll s.now := by rw [Subprocess.poll, Subprocess.poll, hp]
  have hmembers : ∀ m ∈ x.members, m.process ∈ x.processes := fun m hm => List.mem_map_of_mem hm
  have hask_failed (p : Subprocess) (hp : p.child.status? s'.now = p.child.status? s.now) :
      p.failed s'.now = p.failed s.now ∧
        (p.failed s.now).2.child.status? s'.now = (p.failed s.now).2.child.status? s.now := by
    rw [Subprocess.failed, Subprocess.failed, Subprocess.exitedUnexpectedly, Subprocess.exitedUnexpectedly, hpoll p hp]
    refine ⟨rfl, ?_⟩
    split_ifs <;> exact hp
  have hask_alive (p : Subprocess) (hp : p.child.status? s'.now = p.child.status? s.now) :
      p.isAlive s'.now = p.isAlive s.now ∧
        (p.isAlive s.now).2.child.status? s'.now = (p.isAlive s.now).2.child.status? s.now := by
    rw [Subprocess.isAlive, Subprocess.isAlive, hpoll p hp]
    exact ⟨rfl, hp⟩
  obtain ⟨hfailed, hlater⟩ := h.anyOf hask_failed x.members hmembers
  obtain ⟨halive, -⟩ := hlater.anyOf hask_alive x.members hmembers
  cases hasFailed with
  | true => rfl
  | false =>
      simp only [statusOf, hfailed, halive]
      split_ifs <;> rfl

/-- What is told of a pipeline does not depend on anything else. -/
theorem Untouched.outlook (h : s.Untouched s' id) (hknown : ∀ g, (id, g) ∈ s.active → s.IsOf g id) :
    s'.outlook id = s.outlook id := by
  rw [Supervisor.outlook, Supervisor.outlook, h.record, report, report, h.active]
  cases hactive : s.generation? id with
  | none =>
      simp only [h.starting]
      split_ifs <;> rfl
  | some g =>
      obtain ⟨x, hx, hid⟩ := hknown g (mem_active_of_generation? hactive)
      have hstatus (hasFailed : Bool) : (s'.statusOf x hasFailed).1 = (s.statusOf x hasFailed).1 :=
        fst_statusOf_of_agree fun i hi => ⟨h.processes g x hx hid i hi, h.ends g x hx hid i hi⟩
      simp only [hx, (h.generations g x hid).mpr hx]
      split_ifs
      · rfl
      · simp only [hstatus]

end Supervisor

namespace Threads

variable {config : Config} {x x' y : Threads} {m : Move} {id id' : PipelineId}

def processesOf (x : Threads) (id : PipelineId) : List Nat :=
  (x.supervisor.generations.filter (·.pipeline = id)).flatMap Generation.processes ++
    (x.threads.filter (·.pipeline? = some id)).flatMap (·.stake.leftover)

/-- Moves that concern a pipeline: a call for it is made or goes on, the monitor of one of its generations goes on, a
signal hits one of its processes, an event of it comes in, or time passes in which no processes end but its own. A
validation is no move, since it does not touch the supervisor; a shutdown concerns no pipeline alone. -/
def Concerns (x : Threads) (id : PipelineId) : Move → Prop
  | .ask c => c.pipeline? = some id
  | .proceed k _ => (x.threads[k]?).bind Thread.pipeline? = some id
  | .giveUp _ => False
  | .watch g _ => (x.supervisor.generations[g]?).map (·.pipeline) = some id
  | .pass time => ∀ i < x.supervisor.processes.length, i ∉ x.processesOf id →
      (x.supervisor.processes[i]?).map (·.child.status? (x.supervisor.now + time)) =
        (x.supervisor.processes[i]?).map (·.child.status? x.supervisor.now)
  | .signal process _ => process ∈ x.processesOf id
  | .ingest e => e.run = id

instance (x : Threads) (id : PipelineId) : (m : Move) → Decidable (x.Concerns id m)
  | .ask c => inferInstanceAs (Decidable (c.pipeline? = some id))
  | .proceed k _ => inferInstanceAs (Decidable ((x.threads[k]?).bind Thread.pipeline? = some id))
  | .giveUp _ => inferInstanceAs (Decidable False)
  | .watch g _ => inferInstanceAs (Decidable ((x.supervisor.generations[g]?).map (·.pipeline) = some id))
  | .pass time => inferInstanceAs (Decidable (∀ i < x.supervisor.processes.length, i ∉ x.processesOf id →
      (x.supervisor.processes[i]?).map (·.child.status? (x.supervisor.now + time)) =
        (x.supervisor.processes[i]?).map (·.child.status? x.supervisor.now)))
  | .signal process _ => inferInstanceAs (Decidable (process ∈ x.processesOf id))
  | .ingest e => inferInstanceAs (Decidable (e.run = id))

def Elsewhere (id : PipelineId) : Threads → Threads → Prop :=
  ReflTransGen fun x x' => ∃ id' m, id' ≠ id ∧ x.Concerns id' m ∧ x.play m = some x'

/-- No process belongs to two pipelines. -/
theorem notMem_processesOf (hx : x.supervisor.Allotted (x.threads.map Thread.stake)) (hne : id' ≠ id) {g : Nat}
    {y : Generation} (hy : x.supervisor.generations[g]? = some y) (hid : y.pipeline = id') {i : Nat}
    (hi : i ∈ y.processes) : i < x.supervisor.processes.length ∧ i ∉ x.processesOf id := by
  have hcrew : i ∈ x.supervisor.crew g := by
    rw [Supervisor.crew, hy]
    exact hi
  refine ⟨hx.lt_length hcrew, fun hmem => ?_⟩
  rcases List.mem_append.mp hmem with hmem | hmem
  · obtain ⟨z, hz, hiz⟩ := List.mem_flatMap.mp hmem
    obtain ⟨hz, hzid⟩ := List.mem_filter.mp hz
    obtain ⟨g', hg'⟩ := List.getElem?_of_mem hz
    have hcrew' : i ∈ x.supervisor.crew g' := by
      rw [Supervisor.crew, hg']
      exact hiz
    obtain rfl := hx.eq_of_mem_crew hcrew hcrew'
    obtain rfl := Option.some.inj (hy.symm.trans hg')
    exact hne (hid.symm.trans (of_decide_eq_true hzid))
  · obtain ⟨t, ht, hit⟩ := List.mem_flatMap.mp hmem
    exact hx.notMem_leftover hcrew (List.mem_map_of_mem (List.mem_filter.mp ht).1) hit

theorem mem_processesOf_of_crew {g i : Nat} (hof : x.supervisor.IsOf g id) (hi : i ∈ x.supervisor.crew g) :
    i ∈ x.processesOf id := by
  obtain ⟨y, hy, hid⟩ := hof
  rw [Supervisor.crew, hy] at hi
  refine List.mem_append_left _ (List.mem_flatMap.mpr ⟨y, List.mem_filter.mpr ⟨List.mem_of_getElem? hy, ?_⟩, hi⟩)
  exact decide_eq_true hid

theorem mem_processesOf_of_leftover {t : Thread} (ht : t ∈ x.threads) (hid : t.pipeline? = some id) {i : Nat}
    (hi : i ∈ t.stake.leftover) : i ∈ x.processesOf id :=
  List.mem_append_right _ (List.mem_flatMap.mpr ⟨t, List.mem_filter.mpr ⟨ht, decide_eq_true hid⟩, hi⟩)

/-- A move that concerns a pipeline changes what belongs to it, unless it is time that passes. -/
theorem confined_play (hx : x.Owned) (hallotted : x.supervisor.Allotted (x.threads.map Thread.stake))
    (hm : x.Concerns id m) (hplay : x.play m = some x') (hpass : ∀ time, m ≠ .pass time) :
    Supervisor.Confined id (· ∈ x.processesOf id) x.supervisor x'.supervisor := by
  cases m with
  | ask c =>
      rw [play] at hplay
      split_ifs at hplay
      obtain rfl := Option.some.inj hplay
      exact .refl _
  | proceed k env =>
      obtain ⟨t, t', ht, hstep, -⟩ := proceed_eq_some hplay
      have hmem := List.mem_of_getElem? ht
      have hid : t.pipeline? = some id := by rwa [Concerns, ht] at hm
      have hstake : t.stake ∈ x.threads.map Thread.stake := List.mem_map_of_mem hmem
      exact (Thread.does_step hstep).confined hid (fun g hg => hx.sound.known id g hg) (hx.sound.fits _ hstake)
        (hallotted.kept _ hstake) (fun g hof i hi => mem_processesOf_of_crew hof hi)
        fun i hi => mem_processesOf_of_leftover hmem hid hi
  | giveUp k => cases hm
  | watch g timerFirst =>
      obtain ⟨s, hs, rfl⟩ := Option.map_eq_some_iff.mp hplay
      obtain ⟨y, m, hy, htick⟩ := Supervisor.exists_tick hs
      obtain rfl : y.pipeline = id := by simpa [Concerns, hy] using hm
      have hwatched : ∀ t, y.monitor.teardown? = some t → t.processes ⊆ y.processes :=
        hallotted.watched y.core (Supervisor.core_mem_cores hy)
      refine htick.confined hy hwatched fun i hi => ?_
      refine mem_processesOf_of_crew ⟨y, hy, rfl⟩ ?_
      rw [Supervisor.crew, hy]
      exact hi
  | pass time => exact absurd rfl (hpass time)
  | signal process number =>
      obtain rfl := Option.some.inj hplay
      refine .of_processes fun i _ hi => ?_
      have hne : process ≠ i := fun heq => hi (heq ▸ hm)
      simp [hne]
  | ingest e =>
      obtain rfl := Option.some.inj hplay
      exact hm ▸ .ingest e x.supervisor

theorem untouched_play (hx : x.Owned) (hallotted : x.supervisor.Allotted (x.threads.map Thread.stake))
    (hne : id' ≠ id) (hm : x.Concerns id m) (hplay : x.play m = some x') :
    x.supervisor.Untouched x'.supervisor id' := by
  have hforeign (g : Nat) (y : Generation) (hy : x.supervisor.generations[g]? = some y) (hid : y.pipeline = id') (i : Nat)
      (hi : i ∈ y.processes) : i < x.supervisor.processes.length ∧ i ∉ x.processesOf id :=
    notMem_processesOf hallotted hne hy hid hi
  by_cases hpass : ∃ time, m = .pass time
  · obtain ⟨time, rfl⟩ := hpass
    obtain rfl := Option.some.inj hplay
    refine ⟨rfl, Iff.rfl, rfl, fun _ _ _ => Iff.rfl, fun _ _ _ _ _ _ => rfl, fun g y hy hid i hi p hp => ?_⟩
    obtain ⟨hlt, hother⟩ := hforeign g y hy hid i hi
    have hsame := hm i hlt hother
    rw [hp] at hsame
    exact Option.some.inj hsame
  · have hconfined := confined_play hx hallotted hm hplay fun time heq => hpass ⟨time, heq⟩
    exact hconfined.untouched hne hforeign

/-- Whatever happens to other pipelines, in whatever order and from whatever state, leaves a pipeline as it was: its
record, its mark, its active generation and all others of it with their processes, and what is told of it. -/
theorem pipelines_do_not_interfere (hx : Reachable config x) (h : Elsewhere id x y) :
    x.supervisor.Untouched y.supervisor id ∧ y.supervisor.outlook id = x.supervisor.outlook id := by
  have huntouched : Reachable config y ∧ x.supervisor.Untouched y.supervisor id := by
    induction h with
    | refl => exact ⟨hx, .refl _ _⟩
    | tail _ hmove ih =>
        obtain ⟨id', m, hne, hm, hplay⟩ := hmove
        exact ⟨ih.1.tail ⟨m, trivial, hplay⟩,
          ih.2.trans (untouched_play ih.1.owned ih.1.allotted hne.symm hm hplay)⟩
  exact ⟨huntouched.2, huntouched.2.outlook fun g hg => hx.owned.sound.known id g hg⟩

/-! ### A run among others -/

def playFor (id : PipelineId) (x : Threads) (m : Move) : Option Threads :=
  if x.Concerns id m then x.play m else none

theorem Elsewhere.plays (hne : id' ≠ id) (ms : List Move) (hplayed : ms.foldlM (playFor id') x = some y) :
    Elsewhere id x y := by
  induction ms generalizing x with
  | nil => exact Option.some.inj hplayed ▸ .refl
  | cons m ms ih =>
      rw [List.foldlM_cons] at hplayed
      obtain ⟨z, hz, hrest⟩ := Option.bind_eq_some_iff.mp hplayed
      rw [playFor, Option.ite_none_right_eq_some] at hz
      exact .head ⟨id', m, hne, hz.1, hz.2⟩ (ih hrest)

def setUp : List Move := .ask (.startOf 1 ⟨none, none⟩) :: List.replicate 11 (.proceed 0 Scene.calm)

/-- A second pipeline is started beside it and its process is killed. Its monitor finds so, a worker of it still says that
it is done, and an abort of it comes to its answer. -/
def mishap : List Move :=
  .ask (.startOf 2 ⟨none, none⟩) :: List.replicate 11 (.proceed 1 Scene.calm) ++
    [.watch 1 false, .pass 10000000000, .signal 1 Signal.kill, .watch 1 true, .watch 1 true,
      .ingest (Monitor.completionEvent 2 0), .ask (.abortOf 2)] ++ List.replicate 2 (.proceed 2 Scene.calm) ++
    List.replicate 3 (.watch 1 true) ++ List.replicate 6 (.proceed 2 Scene.calm)

theorem mishap_does_not_interfere : ∃ x y, Reachable {} x ∧ Elsewhere 1 x y ∧
    (x.supervisor.outlook 1).status = .running ∧ (y.supervisor.outlook 2).status = .failed ∧
    x.supervisor.Untouched y.supervisor 1 ∧ y.supervisor.outlook 1 = x.supervisor.outlook 1 := by
  obtain ⟨x, y, hx, hy, hruns, hfailed⟩ : ∃ x y, setUp.foldlM play (ofConfig {}) = some x ∧
      mishap.foldlM (playFor 2) x = some y ∧ (x.supervisor.outlook 1).status = .running ∧
      (y.supervisor.outlook 2).status = .failed := ⟨_, _, rfl, rfl, rfl, rfl⟩
  have hreachable : Reachable {} x := Leads.plays setUp (fun _ _ => trivial) hx
  have helsewhere : Elsewhere 1 x y := .plays (by decide) mishap hy
  have huntouched := pipelines_do_not_interfere hreachable helsewhere
  exact ⟨x, y, hreachable, helsewhere, hruns, hfailed, huntouched.1, huntouched.2⟩

end Threads

end Pipeworks
