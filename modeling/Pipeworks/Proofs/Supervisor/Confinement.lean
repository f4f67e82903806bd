import Pipeworks.Proofs.Supervisor.ThreadHoldings

/-!
What a step for one pipeline may change. It changes the record, the mark and the active generation of that pipeline, its
generations, and processes that belong to them or to the start that makes the step. This is put together from what the
parts of the supervisor change: looking at processes, shutting them down, starting them, ending a generation, and the
steps of a monitor.
-/

namespace Pipeworks

namespace Member

variable {α : Type} {i : Nat}

theorem getElem?_findAnswer (ask : Subprocess → Option α × Subprocess) {ms : List Member} (ps : List Subprocess)
    (hi : i ∉ ms.map (·.process)) : (findAnswer ask ms ps).2[i]? = ps[i]? := by
  induction ms generalizing ps with
  | nil => rfl
  | cons m ms ih =>
      rw [List.map_cons, List.mem_cons, not_or] at hi
      rw [findAnswer]
      cases ps[m.process]? with
      | none => exact ih ps hi.2
      | some p =>
          rcases hanswer : ask p with ⟨_ | a, q⟩ <;> simp only [hanswer]
          · exact (ih _ hi.2).trans (List.getElem?_set_ne (Ne.symm hi.1))
          · exact List.getElem?_set_ne (Ne.symm hi.1)

theorem getElem?_anyOf (ask : Subprocess → Bool × Subprocess) {ms : List Member} (ps : List Subprocess)
    (hi : i ∉ ms.map (·.process)) : (anyOf ask ms ps).2[i]? = ps[i]? := getElem?_findAnswer _ ps hi

end Member

namespace Supervisor

variable {env : Surroundings} {s s' s'' : Supervisor} {id : PipelineId} {g : Nat} {own : Nat → Prop}

/-- A step that changes nothing but what belongs to one pipeline, and of the processes only those of its own. -/
structure Confined (id : PipelineId) (own : Nat → Prop) (s s' : Supervisor) : Prop where
  now : s'.now = s.now
  records : ∀ id', id' ≠ id → s'.registry.get? id' = s.registry.get? id'
  active : s'.active.filter (·.1 ≠ id) = s.active.filter (·.1 ≠ id)
  starting : s'.starting.filter (· ≠ id) = s.starting.filter (· ≠ id)
  generations : ∀ (g : Nat) (x : Generation), x.pipeline ≠ id →
    (s'.generations[g]? = some x ↔ s.generations[g]? = some x)
  processes : ∀ i < s.processes.length, ¬own i → s'.processes[i]? = s.processes[i]?

namespace Confined

theorem refl (s : Supervisor) : Confined id own s s :=
  ⟨rfl, fun _ _ => rfl, rfl, rfl, fun _ _ _ => Iff.rfl, fun _ _ _ => rfl⟩

theorem trans (h : Confined id own s s') (h' : Confined id own s' s'') : Confined id own s s'' := by
  refine ⟨h'.now.trans h.now, fun id' hid => (h'.records id' hid).trans (h.records id' hid), h'.active.trans h.active,
    h'.starting.trans h.starting, fun g x hx => (h'.generations g x hx).trans (h.generations g x hx), fun i hi hown => ?_⟩
  have hkept := h.processes i hi hown
  have hi' : i < s'.processes.length := by
    rw [List.getElem?_eq_getElem hi] at hkept
    exact (List.getElem?_eq_some_iff.mp hkept).1
  exact (h'.processes i hi' hown).trans hkept

theorem of_processes {ps : List Subprocess} (h : ∀ i < s.processes.length, ¬own i → ps[i]? = s.processes[i]?) :
    Confined id own s { s with processes := ps } :=
  ⟨rfl, fun _ _ => rfl, rfl, rfl, fun _ _ _ => Iff.rfl, h⟩

theorem of_bus {bus : Bus} (h : ∀ id', id' ≠ id → bus.registry.get? id' = s.registry.get? id') :
    Confined id own s { s with bus } :=
  ⟨rfl, h, rfl, rfl, fun _ _ _ => Iff.rfl, fun _ _ _ => rfl⟩

theorem of_turns {bus : Bus} {ts : List Transition} (h : s.registry.Turns id ts bus.registry) :
    Confined id own s { s with bus } := of_bus h.others

theorem call (t : Transition) (s : Supervisor) : Confined id own s (s.setRegistry (t.call s.registry id).2) :=
  of_turns (.call t s.registry id)

theorem ingest (e : Event) (s : Supervisor) : Confined e.run own s (s.ingest e).2 :=
  .of_turns (s.turns_ingest e)

theorem deactivate (s : Supervisor) : Confined id own s (s.deactivate id) := by
  refine ⟨rfl, fun _ _ => rfl, ?_, rfl, fun _ _ _ => Iff.rfl, fun _ _ _ => rfl⟩
  change (s.active.filter _).filter _ = _
  rw [List.filter_filter]
  simp

theorem unmark (s : Supervisor) : Confined id own s (s.unmark id) := by
  refine ⟨rfl, fun _ _ => rfl, rfl, ?_, fun _ _ _ => Iff.rfl, fun _ _ _ => rfl⟩
  change (s.starting.filter _).filter _ = _
  rw [List.filter_filter]
  simp

theorem mark (s : Supervisor) : Confined id own s { s with starting := s.starting ++ [id] } :=
  ⟨rfl, fun _ _ => rfl, rfl, by simp, fun _ _ _ => Iff.rfl, fun _ _ _ => rfl⟩

theorem modifyGeneration {f : Generation → Generation} (hof : s.IsOf g id) (hf : ∀ x, (f x).pipeline = x.pipeline) :
    Confined id own s (s.modifyGeneration g f) := by
  refine ⟨rfl, fun _ _ => rfl, rfl, rfl, fun j x hx => ?_, fun _ _ _ => rfl⟩
  obtain ⟨y, hy, hid⟩ := hof
  change (s.generations.modify g f)[j]? = some x ↔ _
  rw [List.getElem?_modify]
  by_cases hj : g = j
  · subst hj
    rw [hy]
    refine iff_of_false (fun heq => hx ?_) fun heq => hx (Option.some.inj heq ▸ hid)
    obtain rfl : f y = x := by simpa using heq
    exact (hf y).trans hid
  · cases s.generations[j]? <;> simp [hj]

theorem cancel (hof : s.IsOf g id) : Confined id own s (s.cancel g) := modifyGeneration hof fun _ => rfl

theorem setHeld (hof : s.IsOf g id) (held : Bool) : Confined id own s (s.setHeld g held) :=
  modifyGeneration hof fun _ => rfl

theorem setMonitor (hof : s.IsOf g id) (m : Monitor) : Confined id own s (s.setMonitor g m) :=
  modifyGeneration hof fun _ => rfl

theorem enrol {x : Generation} (hid : x.pipeline = id) (s : Supervisor) : Confined id own s (s.enrol x) := by
  refine ⟨rfl, fun _ _ => rfl, rfl, rfl, fun g y hy => ?_, fun _ _ _ => rfl⟩
  change (s.generations ++ [x])[g]? = some y ↔ _
  rw [List.getElem?_append]
  split_ifs with hg
  · exact Iff.rfl
  · rw [List.getElem?_eq_none (not_lt.mp hg), List.getElem?_singleton]
    refine iff_of_false (fun heq => hy ?_) (by simp)
    split_ifs at heq
    exact Option.some.inj heq ▸ hid

theorem spawn {spec : WorkerSpec} {r : Except Error Member} (h : s.spawn env spec = (r, s')) :
    Confined id own s s' := by
  rw [Supervisor.spawn] at h
  split at h <;> obtain ⟨-, rfl⟩ := Prod.mk.inj h
  · exact ⟨rfl, fun _ _ => rfl, rfl, rfl, fun _ _ _ => Iff.rfl, fun _ _ _ => rfl⟩
  · exact ⟨rfl, fun _ _ => rfl, rfl, rfl, fun _ _ _ => Iff.rfl, fun i hi _ => List.getElem?_append_left hi⟩

/-! ### Looking at processes -/

theorem anyAlive (hown : ∀ i ∈ s.crew g, own i) : Confined id own s (s.anyAlive g).2 := by
  rw [Supervisor.anyAlive]
  rw [crew] at hown
  cases hx : s.generations[g]? with
  | none => exact refl s
  | some x =>
      rw [hx] at hown
      exact of_processes fun i _ hi => Member.getElem?_anyOf _ _ fun hmem => hi (hown i hmem)

theorem statusOf {x : Generation} (hown : ∀ i ∈ x.processes, own i) (hasFailed : Bool) :
    Confined id own s (s.statusOf x hasFailed).2 := by
  have hlook (ask : Subprocess → Bool × Subprocess) (ps : List Subprocess) {i : Nat} (hi : ¬own i) :
      (Member.anyOf ask x.members ps).2[i]? = ps[i]? := Member.getElem?_anyOf ask ps fun hmem => hi (hown i hmem)
  rw [Supervisor.statusOf]
  split_ifs
  · exact refl s
  · dsimp only
    split_ifs
    · exact of_processes fun i _ hi => hlook _ _ hi
    all_goals exact of_processes fun i _ hi => (hlook _ _ hi).trans (hlook _ _ hi)

theorem report (hown : ∀ g, (id, g) ∈ s.active → ∀ i ∈ s.crew g, own i) (run : Option RunState) :
    Confined id own s (s.report id run).2 := by
  rw [Supervisor.report]
  cases hactive : s.generation? id with
  | none =>
      dsimp only
      split_ifs <;> exact refl s
  | some g =>
      have hcrew := hown g (mem_active_of_generation? hactive)
      rw [crew] at hcrew
      dsimp only
      cases hx : s.generations[g]? with
      | none => exact refl s
      | some x =>
          rw [hx] at hcrew
          dsimp only
          split_ifs
          · exact refl s
          · exact statusOf hcrew _

/-! ### Shutting processes down -/

theorem next_later {t t' : Teardown} (h : t.next s = .later t' s') (hown : ∀ i ∈ t.processes, own i) :
    Confined id own s s' := by
  obtain ⟨i, rest, hprocesses, ⟨-, -, rfl⟩ | ⟨p, q, -, rfl, -⟩⟩ := Teardown.next_later_cases h
  · exact refl s'
  · refine of_processes fun j _ hj => List.getElem?_set_ne ?_
    rintro rfl
    exact hj (hown i (hprocesses ▸ List.mem_cons_self))

theorem stepTakedown {t : Takedown} {t' : Option Takedown} (h : s.stepTakedown g t = some (t', s')) (hof : s.IsOf g id)
    (hown : ∀ i ∈ t.list, own i) : Confined id own s s' := by
  obtain ⟨rfl, -⟩ | ⟨x, -, -, rfl⟩ | ⟨u, u', rfl, hnext, -⟩ | ⟨-, rfl⟩ := stepTakedown_kinds h
  · exact refl s'
  · exact setHeld hof true
  · exact next_later hnext hown
  · exact setHeld hof false

end Confined

/-! ### Calls -/

theorem confined_concludeStop (s : Supervisor) (id : PipelineId) : Confined id own s (s.concludeStop id).2 := by
  have habort : Confined id own s (s.setRegistry (s.registry.abort id "Pipeline stopped").2) :=
    .call (.abort "Pipeline stopped") s
  rw [concludeStop]
  dsimp only
  split_ifs
  · exact habort.trans (.of_bus fun _ _ => rfl)
  · exact habort

theorem confined_concludeAbort (s : Supervisor) (id : PipelineId) (moved : Bool) :
    Confined id own s (s.concludeAbort id moved).2 := by
  rw [concludeAbort]
  split_ifs
  · exact .of_bus fun _ _ => rfl
  · exact .refl s

theorem confined_takeOut (hknown : ∀ g, (id, g) ∈ s.active → s.IsOf g id) (hactive : s.generation? id = some g) :
    Confined id own s ((s.deactivate id).cancel g) := by
  have hof : (s.deactivate id).IsOf g id := hknown g (mem_active_of_generation? hactive)
  exact (Confined.deactivate s).trans (.cancel hof)

theorem confined_stepStop {stage : StopStage} (hknown : ∀ g, (id, g) ∈ s.active → s.IsOf g id)
    (hfits : s.Fits (Call.stop id stage).stake) (hkeeps : s.Keeps (Call.stop id stage).stake)
    (hown : ∀ g, s.IsOf g id → ∀ i ∈ s.crew g, own i) :
    (s.stepStop id stage).Does fun s' _ => Confined id own s s' := by
  cases stage with
  | asked =>
      rw [stepStop]
      split_ifs
      · trivial
      · cases hactive : s.generation? id with
        | none => exact Confined.refl s
        | some g => exact confined_takeOut hknown hactive
  | ending g t =>
      have hof : s.IsOf g id := (hfits _ List.mem_cons_self).1
      have hlist : ∀ i ∈ t.list, own i := fun i hi => hown g hof i (hkeeps _ List.mem_cons_self hi)
      rw [stepStop]
      cases hstep : s.stepTakedown g t with
      | none => trivial
      | some taken =>
          obtain ⟨_ | t', s'⟩ := taken
          · exact (Confined.stepTakedown hstep hof hlist).trans (confined_concludeStop s' id)
          · exact Confined.stepTakedown hstep hof hlist

theorem confined_stepAbort {stage : AbortStage} (hknown : ∀ g, (id, g) ∈ s.active → s.IsOf g id)
    (hfits : s.Fits (Call.abort id stage).stake) (hkeeps : s.Keeps (Call.abort id stage).stake)
    (hown : ∀ g, s.IsOf g id → ∀ i ∈ s.crew g, own i) :
    (s.stepAbort id stage).Does fun s' _ => Confined id own s s' := by
  cases stage with
  | asked => exact .call (.abort "Pipeline aborted") s
  | marked moved =>
      rw [stepAbort]
      split_ifs
      · trivial
      · cases hactive : s.generation? id with
        | some g => exact confined_takeOut hknown hactive
        | none =>
            dsimp only
            split
            · exact Confined.refl s
            · exact confined_concludeAbort s id moved
  | ending moved g t =>
      have hof : s.IsOf g id := (hfits _ List.mem_cons_self).1
      have hlist : ∀ i ∈ t.list, own i := fun i hi => hown g hof i (hkeeps _ List.mem_cons_self hi)
      rw [stepAbort]
      cases hstep : s.stepTakedown g t with
      | none => trivial
      | some taken =>
          obtain ⟨_ | t', s'⟩ := taken
          · exact (Confined.stepTakedown hstep hof hlist).trans (confined_concludeAbort s' id moved)
          · exact Confined.stepTakedown hstep hof hlist

end Supervisor

def Call.pipeline? : Call → Option PipelineId
  | start id _ _ => some id
  | stop id _ => some id
  | abort id _ => some id
  | status id _ => some id
  | shutdownAll _ => none

namespace Supervisor

variable {env : Surroundings} {s s' : Supervisor} {id : PipelineId} {own : Nat → Prop}

theorem confined_step {c : Call} (hc : c.pipeline? = some id) (hother : c.isStart = false)
    (hknown : ∀ g, (id, g) ∈ s.active → s.IsOf g id) (hfits : s.Fits c.stake) (hkeeps : s.Keeps c.stake)
    (hown : ∀ g, s.IsOf g id → ∀ i ∈ s.crew g, own i) : (s.step env c).Does fun s' _ => Confined id own s s' := by
  cases c with
  | start id' o stage => cases hother
  | stop id' stage =>
      obtain rfl := Option.some.inj hc
      exact confined_stepStop hknown hfits hkeeps hown
  | abort id' stage =>
      obtain rfl := Option.some.inj hc
      exact confined_stepAbort hknown hfits hkeeps hown
  | status id' run =>
      obtain rfl := Option.some.inj hc
      cases run with
      | none => exact Confined.refl s
      | some run =>
          rw [step, stepStatus]
          split_ifs
          · trivial
          · exact Confined.report (fun g hg => hown g (hknown g hg)) run
  | shutdownAll stage => cases hc

end Supervisor

namespace Thread

open Supervisor (Confined)

variable {env : Surroundings} {s s' : Supervisor} {t t' : Thread} {id : PipelineId} {own : Nat → Prop}

def pipeline? : Thread → Option PipelineId
  | calling c => c.pipeline?
  | launching l _ => some l.id
  | failing id _ => some id
  | leaving id _ => some id
  | doubting id _ => some id
  | concluding id _ => some id
  | answered _ => none

/-- A step of a thread changes what belongs to its pipeline, and processes of its generations or in its own hands. -/
theorem Does.confined (h : Does env s t t' s') (ht : t.pipeline? = some id)
    (hknown : ∀ g, (id, g) ∈ s.active → s.IsOf g id) (hfits : s.Fits t.stake) (hkeeps : s.Keeps t.stake)
    (hown : ∀ g, s.IsOf g id → ∀ i ∈ s.crew g, own i) (hleft : ∀ i ∈ t.stake.leftover, own i) :
    Confined id own s s' := by
  cases h with
  | @later c _ _ hc hstep =>
      have hconfined : (s.step env c).Does fun s' _ => Confined id own s s' :=
        Supervisor.confined_step ht hc hknown hfits hkeeps hown
      rwa [hstep] at hconfined
  | @answers c _ _ hc hstep =>
      have hconfined : (s.step env c).Does fun s' _ => Confined id own s s' :=
        Supervisor.confined_step ht hc hknown hfits hkeeps hown
      rwa [hstep] at hconfined
  | @joined id' moved g t _ hstep =>
      obtain rfl := Option.some.inj ht
      have hof : s.IsOf g id' := (hfits _ List.mem_cons_self).1
      exact .stepTakedown hstep hof fun i hi => hown g hof i (hkeeps _ List.mem_cons_self hi)
  | concludes =>
      obtain rfl := Option.some.inj ht
      exact Supervisor.confined_concludeAbort s _ _
  | doubts | unknown | known | barred | waived | refused | fetched | compiled | unwound => exact .refl s
  | unfit | marks =>
      obtain rfl := Option.some.inj ht
      exact .mark s
  | takes | numbers => exact ⟨rfl, fun _ _ => rfl, rfl, rfl, fun _ _ _ => Iff.rfl, fun _ _ _ => rfl⟩
  | @alive id' o g =>
      obtain rfl := Option.some.inj ht
      have hlook : Confined id' own s _ := .anyAlive (hown g (hknown g hfits.2))
      exact ⟨hlook.now, hlook.records, hlook.active, hlook.starting, hlook.generations, hlook.processes⟩
  | @dead id' o g _ =>
      obtain rfl := Option.some.inj ht
      have hlook : Confined id' own s _ := .anyAlive (hown g (hknown g hfits.2))
      have hof : (s.anyAlive g).2.IsOf g id' := (hknown g hfits.2).quiet (.anyAlive s g)
      have hback : Confined id' own s { (s.anyAlive g).2 with activeHeld := false } :=
        ⟨hlook.now, hlook.records, hlook.active, hlook.starting, hlook.generations, hlook.processes⟩
      exact (hback.trans (.deactivate _)).trans (.cancel hof)
  | forgets =>
      obtain rfl := Option.some.inj ht
      exact .of_bus fun id' hid => (Registry.get?_reset _ _ _).trans (if_neg hid)
  | records =>
      obtain rfl := Option.some.inj ht
      exact .of_bus fun id' hid => (Registry.get?_init _ _ _ _).trans (if_neg hid)
  | spawns hspawn => exact .spawn hspawn
  | breaks hspawn => exact .spawn hspawn
  | enrols hid _ =>
      obtain rfl := Option.some.inj ht
      exact .enrol hid s
  | unwinds hnext => exact .next_later hnext hleft
  | fails =>
      obtain rfl := Option.some.inj ht
      exact .call (.fail _) s
  | @enters id' o g r _ =>
      obtain rfl := Option.some.inj ht
      have hrestart : Confined id' own s (s.modifyGeneration g fun x => { x with startedAt := s.now }) :=
        .modifyGeneration hfits.2 fun _ => rfl
      refine hrestart.trans ⟨rfl, fun _ _ => rfl, ?_, rfl, fun _ _ _ => Iff.rfl, fun _ _ _ => rfl⟩
      simp [Supervisor.modifyGeneration, List.filter_filter]
  | leaves =>
      obtain rfl := Option.some.inj ht
      exact .unmark s

end Thread

/-! ### Monitors -/

namespace Supervisor

variable {s s' : Supervisor} {g : Nat} {x : Generation} {own : Nat → Prop} {m : Monitor}

/-- A step of a monitor changes what belongs to the pipeline of its generation, and processes of the generation. -/
theorem Tick.confined (h : Tick s g x s' m) (hx : s.generations[g]? = some x)
    (hwatched : ∀ t, x.monitor.teardown? = some t → t.processes ⊆ x.processes) (hown : ∀ i ∈ x.processes, own i) :
    Confined x.pipeline own s s' := by
  have hof : s.IsOf g x.pipeline := ⟨x, hx, rfl⟩
  have hof' : (s.polled x).IsOf g x.pipeline := hof
  have hpolled : Confined x.pipeline own s (s.polled x) :=
    .of_processes fun i _ hi => Member.getElem?_findAnswer _ _ fun hmem => hi (hown i hmem)
  have hended : Confined x.pipeline own s (s.endMonitor g) :=
    (Confined.setHeld hof false).trans (.setMonitor (hof.quiet (.setHeld s g false)) .ended)
  cases h with
  | begins | quits | wakes | drains | turns => exact .setMonitor hof _
  | @finds _ _ _ _ message _ _ _ =>
      have hfailed := hpolled.trans (.call (.fail message) (s.polled x))
      have hof'' := hof'.quiet (.setRegistry _ ((s.polled x).registry.fail x.pipeline message).2)
      exact (hfailed.trans (.setHeld hof'' true)).trans (.setMonitor (hof''.quiet (.setHeld _ g true)) _)
  | elapses => exact hpolled.trans (.setMonitor hof' _)
  | sleeps => exact hpolled.trans (.setMonitor hof' _)
  | claims => exact (Confined.setHeld hof true).trans (.setMonitor (hof.quiet (.setHeld s g true)) _)
  | stops hteardown hnext =>
      have hquiet := Teardown.quiet_of_next_later hnext
      have hstopped : Confined x.pipeline own s _ := .next_later hnext fun i hi => hown i (hwatched _ hteardown hi)
      exact hstopped.trans (.setMonitor (hof.quiet hquiet) _)
  | @fails segment message _ _ _ => exact hended.trans (.ingest (Monitor.crashEvent x.pipeline segment message) _)
  | leaves => exact hended
  | completes =>
      have hturns := turns_reportCompletion (s.endMonitor g) x
      obtain ⟨bus, hbus⟩ := exists_reportCompletion (s.endMonitor g) x
      rw [hbus] at hturns ⊢
      exact hended.trans (.of_turns hturns)

end Supervisor

end Pipeworks
