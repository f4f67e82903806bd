import Pipeworks.Proofs.Supervisor.ThreadOwnership
import Pipeworks.Proofs.Supervisor.Watch

/-!
What is known of a start at each of its stages. What a start has done is told by the steps of its thread. Up to its
launch it does nothing that others could see; from then on it has the record of a run, and it knows the processes that
it has started; if it cannot start one of them, it shuts down the others in their order, and fails the run. Others leave
that alone, for as long as a start has marked its pipeline no other start of it goes on; but they may end the run.
-/

namespace Pipeworks

namespace Thread

variable {env : Surroundings} {s s' : Supervisor} {t t' : Thread} {id : PipelineId}

def isStart : Thread → Bool
  | calling c => c.isStart
  | launching _ _ => true
  | failing _ _ => true
  | leaving _ _ => true
  | answered (.started _) => true
  | _ => false

def marked? : Thread → Option PipelineId
  | calling (.start _ _ .asked) => none
  | calling (.start id _ _) => some id
  | launching l _ => some l.id
  | failing id _ => some id
  | leaving id _ => some id
  | _ => none

def hasRecorded : Thread → Bool
  | calling (.start _ _ (.unwinding _ _)) => true
  | launching _ (.spawning _ _) => true
  | failing _ _ => true
  | _ => false

def attempt? (env : Surroundings) (s : Supervisor) : Thread → Option (Except Error Member)
  | launching _ (.spawning (spec :: _) _) => some (s.spawn env spec).1
  | _ => none

theorem mark?_stake (t : Thread) : t.stake.mark? = t.marked? := by
  cases t with
  | calling c =>
      cases c with
      | start id o stage => cases stage <;> rfl
      | stop id stage => cases stage <;> rfl
      | abort id stage => cases stage <;> rfl
      | status id run => rfl
      | shutdownAll stage =>
          cases stage with
          | asked => rfl
          | ending runs t => cases runs <;> rfl
  | launching l stage => cases stage <;> rfl
  | leaving id o => cases o <;> rfl
  | failing id e => rfl
  | doubting id moved => rfl
  | concluding id moved => rfl
  | answered a => rfl

/-! ### What the steps of threads leave of the records -/

theorem bus_of_spawn {spec : WorkerSpec} {r : Except Error Member} (h : s.spawn env spec = (r, s')) :
    s'.bus = s.bus := by
  rw [Supervisor.spawn] at h
  split at h <;> obtain ⟨-, rfl⟩ := Prod.mk.inj h <;> rfl

theorem registry_of_spawn {spec : WorkerSpec} {r : Except Error Member} (h : s.spawn env spec = (r, s')) :
    s'.registry = s.registry := congrArg Bus.registry (bus_of_spawn h)

/-- A start changes no record but the one of the pipeline that it has marked. -/
theorem Does.registry_of_start (h : Does env s t t' s') (ht : t.isStart = true) (hid : t.marked? ≠ some id) :
    s'.registry.get? id = s.registry.get? id := by
  cases h with
  | later hc _ => exact absurd (hc.symm.trans ht) Bool.false_ne_true
  | answers hc _ => exact absurd (hc.symm.trans ht) Bool.false_ne_true
  | doubts | joined | unknown | known | concludes => cases ht
  | alive => exact congrArg (·.get? id) (Supervisor.Looks.anyAlive s _).registry
  | dead => exact congrArg (·.get? id) (Supervisor.Looks.anyAlive s _).registry
  | forgets => exact (Registry.get?_reset _ _ _).trans (if_neg fun h => hid (congrArg some h.symm))
  | records => exact (Registry.get?_init _ _ _ _).trans (if_neg fun h => hid (congrArg some h.symm))
  | spawns hspawn => rw [registry_of_spawn hspawn]
  | breaks hspawn => rw [registry_of_spawn hspawn]
  | unwinds hnext =>
      obtain ⟨ps, rfl⟩ := Supervisor.eq_of_next_later hnext
      rfl
  | fails => exact (Transition.get?_call (.fail _) _ _ _).trans (if_neg fun h => hid (congrArg some h.symm))
  | _ => rfl

theorem isStart_of_stake {c : Call} (h : c.stake = .cleared id) : c.isStart = true := by
  cases c with
  | start id o stage => rfl
  | stop id stage => cases stage <;> cases h
  | abort id stage => cases stage <;> cases h
  | status id run => cases h
  | shutdownAll stage =>
      cases stage with
      | asked => cases h
      | ending runs t => cases runs <;> cases h

theorem Does.record_of_other (h : Does env s t t' s') (ht : t.isStart = false) (id : PipelineId) :
    ∃ ts, s'.registry.get? id = (s.registry.get? id).map (·.after ts) := by
  have hcall {c : Call} {c' : Option Call} (hc : c.isStart = false) (he : Supervisor.Effect s c s' c') :
      ∃ ts, s'.registry.get? id = (s.registry.get? id).map (·.after ts) := by
    refine (he.record id).resolve_right fun hcleared => ?_
    exact absurd (hc.symm.trans (isStart_of_stake hcleared.1)) Bool.false_ne_true
  cases h with
  | later hc hstep => exact hcall hc (effect_of_does hstep)
  | answers hc hstep => exact hcall hc (effect_of_does hstep)
  | joined hstep => exact Supervisor.record_refl (by rw [Supervisor.registry_stepTakedown hstep])
  | concludes => exact Supervisor.record_refl (by rw [Supervisor.registry_concludeAbort])
  | doubts | unknown | known => exact Supervisor.record_refl rfl
  | _ => cases ht

/-- A start answers with an error as it finds its pipeline marked, or by giving back its mark. -/
theorem Does.of_error {e : Error} (h : Does env s t (answered (.started (.error e))) s') :
    (∃ id o, t = calling (.start id o .asked)) ∨ ∃ id o, o.result = .error e ∧ t = leaving id o ∧ s' = s.unmark id := by
  generalize hover : answered (.started (.error e)) = t' at h
  cases h with
  | answers hc hstep =>
      have habstains := Supervisor.abstains_step env (s := s) hc
      rw [hstep] at habstains
      exact absurd (answered.inj hover).symm (habstains.1 _)
  | @concludes id moved =>
      have habstains : s.Abstains (.answer (s.concludeAbort id moved).1 _) :=
        Supervisor.abstains_concludeAbort rfl moved
      exact absurd (answered.inj hover).symm (habstains.1 _)
  | @barred id o _ => exact .inl ⟨id, o, rfl⟩
  | @leaves id o => exact .inr ⟨id, o, (Answer.started.inj (answered.inj hover)).symm, rfl, rfl⟩
  | _ => cases hover

end Thread

namespace Threads

variable {config : Config} {τ : List Deed} {x x' : Threads} {m : Move} {k : Nat} {env : Surroundings} {id : PipelineId}
  {t t' : Thread} {s' : Supervisor} {ms : List Member} {e : Error}

/-! ### Deeds of starts -/

def Deed.attempt? (d : Deed) : Option (Except Error Member) :=
  match d.move with
  | .proceed k env => (d.before.threads[k]?).bind (Thread.attempt? env d.before.supervisor)
  | _ => none

def attempts (τ : List Deed) (k : Nat) : List (Except Error Member) := (deeds τ k).filterMap Deed.attempt?

structure Deed.Silent (d : Deed) : Prop where
  bus : d.after.supervisor.bus = d.before.supervisor.bus
  launched : d.after.supervisor.launched = d.before.supervisor.launched
  processes : d.after.supervisor.processes.length = d.before.supervisor.processes.length

def Deed.Refuses (d : Deed) (e : Error) : Prop :=
  ∃ k env id o stage, d.move = .proceed k env ∧ d.before.threads[k]? = some (.calling (.start id o stage)) ∧
    Refusal env id o e

def Deed.isOfStart (d : Deed) : Bool :=
  match d.move with
  | .proceed k _ => (d.before.threads[k]?).any Thread.isStart
  | _ => false

/-- The run that a start has made known, and not failed yet, is ended by what is no step of a start. -/
structure Deed.Robs (d : Deed) (k : Nat) (id : PipelineId) : Prop where
  recorded : ∃ t, d.before.threads[k]? = some t ∧ t.hasRecorded = true
  other : d.isOfStart = false
  unended : ∃ r, d.before.supervisor.registry.get? id = some r ∧ r.status.isTerminal = false
  ended : d.after.supervisor.HasEnded id

structure Spotless (τ : List Deed) (k : Nat) : Prop where
  attempted : attempts τ k = []
  silent : ∀ d ∈ deeds τ k, d.Silent

def Refused (τ : List Deed) (k : Nat) (e : Error) : Prop := ∃ d ∈ deeds τ k, d.Refuses e

def AllStarted (τ : List Deed) (k : Nat) : Prop := ∃ ms : List Member, attempts τ k = ms.map .ok

def Untouched (τ : List Deed) (k : Nat) (ms : List Member) : Prop :=
  ∀ d ∈ deeds τ k, ∀ i ∈ ms.map (·.process), ∀ p, d.before.supervisor.processes[i]? = some p →
    d.after.supervisor.processes[i]? = some p

/-- A start does something to one of its processes only when all are gone that come before it. -/
def InOrder (τ : List Deed) (k : Nat) (ms : List Member) : Prop :=
  ∀ d ∈ deeds τ k, ∀ i ∈ ms.map (·.process), ∀ p, d.before.supervisor.processes[i]? = some p →
    d.after.supervisor.processes[i]? ≠ some p →
      ∃ earlier later, Member.shutdownOrder ms = earlier ++ i :: later ∧ ∀ j ∈ earlier, d.before.supervisor.Gone j

structure Broken (τ : List Deed) (k : Nat) (ms : List Member) (e : Error) : Prop where
  attempted : attempts τ k = ms.map .ok ++ [.error e]
  ordered : InOrder τ k ms

def Recorded (τ : List Deed) (k : Nat) (s : Supervisor) (id : PipelineId) : Prop :=
  (∃ r, s.registry.get? id = some r ∧ r.status.isTerminal = false) ∨ s.HasEnded id ∧ ∃ d ∈ τ, d.Robs k id

/-- The run that a start has made known has failed, or was ended by somebody else. -/
def Given (τ : List Deed) (k : Nat) (s : Supervisor) (id : PipelineId) (e : Error) : Prop :=
  (∃ r, s.registry.get? id = some r ∧ r.status = .failed ∧ r.message = "Failed to start pipeline: " ++ e.message) ∨
    s.HasEnded id ∧ ∃ d ∈ τ, d.Robs k id

def Story (τ : List Deed) (k : Nat) (s : Supervisor) : Thread → Prop
  | .calling (.start id _ (.unwinding t e)) =>
    ∃ ms gone, Broken τ k ms e ∧ Member.shutdownOrder ms = gone ++ t.processes ∧ (∀ i ∈ gone, s.Gone i) ∧
      Recorded τ k s id
  | .calling (.start _ _ (.enlisting _ _)) => AllStarted τ k
  | .calling (.start _ _ _) => Spotless τ k
  | .launching _ .numbering => Spotless τ k
  | .launching _ .forgetting => Spotless τ k
  | .launching l .recording => attempts τ k = [] ∧ s.registry.get? l.id = none
  | .launching l (.spawning _ ms) => attempts τ k = ms.map .ok ∧ Untouched τ k ms ∧ Recorded τ k s l.id
  | .failing id e => ∃ ms, Broken τ k ms e ∧ (∀ m ∈ ms, s.Gone m.process) ∧ Recorded τ k s id
  | .leaving _ (.refused e) => Spotless τ k ∧ Refused τ k e
  | .leaving id (.failed e) => ∃ ms, Broken τ k ms e ∧ (∀ m ∈ ms, s.Gone m.process) ∧ Given τ k s id e
  | .leaving _ (.entered _) => AllStarted τ k
  | .answered (.started (.ok _)) => AllStarted τ k
  | .answered (.started (.error e)) => Spotless τ k ∧ Refused τ k e ∨ ∃ ms, Broken τ k ms e ∧ ∀ m ∈ ms, s.Gone m.process
  | _ => attempts τ k = []

/-! ### What others do -/

theorem deeds_append_of_not {d : Deed} (hd : d.isOf k = false) : deeds (τ ++ [d]) k = deeds τ k := by
  simp [deeds, hd]

theorem attempts_append_of_not {d : Deed} (hd : d.isOf k = false) : attempts (τ ++ [d]) k = attempts τ k := by
  rw [attempts, deeds_append_of_not hd, attempts]

/-- What others do leaves the record of a start alone, or is no step of a start and makes transitions of its run. -/
theorem Happens.record (h : x.Happens m x') (hx : x.Owned) (ht : x.threads[k]? = some t) (hmark : t.marked? = some id)
    (hother : Deed.isOf k ⟨x, m, x'⟩ = false) :
    x'.supervisor.registry.get? id = x.supervisor.registry.get? id ∨
      Deed.isOfStart ⟨x, m, x'⟩ = false ∧
        ∃ ts, x'.supervisor.registry.get? id = (x.supervisor.registry.get? id).map (·.after ts) := by
  cases h with
  | asks _ => exact .inl rfl
  | @goes l env u u' s' hu hdoes =>
      have hne : l ≠ k := by simpa [Deed.isOf] using hother
      cases hstart : u.isStart with
      | false => exact .inr ⟨by simp [Deed.isOfStart, hu, hstart], hdoes.record_of_other hstart id⟩
      | true =>
          -- it is another start, so it has marked another pipeline
          refine .inl (hdoes.registry_of_start hstart fun hmark' => hne ?_)
          have hl : (x.threads.map Thread.stake)[l]? = some u.stake := by rw [List.getElem?_map, hu, Option.map_some]
          have hk : (x.threads.map Thread.stake)[k]? = some t.stake := by rw [List.getElem?_map, ht, Option.map_some]
          rw [← Thread.mark?_stake] at hmark hmark'
          exact Scene.eq_of_mark hx.sound.marks hl hk hmark' hmark
  | @drifts m s' hmove hdrifts =>
      refine .inr ⟨?_, hdrifts.record id⟩
      cases m with
      | proceed l env => exact absurd rfl (hmove l env)
      | _ => rfl

section Others

variable {d : Deed}

theorem Spotless.of_other (h : Spotless τ k) (hd : d.isOf k = false) : Spotless (τ ++ [d]) k :=
  ⟨(attempts_append_of_not hd).trans h.attempted, fun d' hd' => h.silent d' (deeds_append_of_not hd ▸ hd')⟩

theorem AllStarted.of_other (h : AllStarted τ k) (hd : d.isOf k = false) : AllStarted (τ ++ [d]) k := by
  rwa [AllStarted, attempts_append_of_not hd]

theorem Refused.of_other (h : Refused τ k e) (hd : d.isOf k = false) : Refused (τ ++ [d]) k e := by
  rwa [Refused, deeds_append_of_not hd]

theorem Untouched.of_other (h : Untouched τ k ms) (hd : d.isOf k = false) : Untouched (τ ++ [d]) k ms := by
  rwa [Untouched, deeds_append_of_not hd]

theorem Broken.of_other (h : Broken τ k ms e) (hd : d.isOf k = false) : Broken (τ ++ [d]) k ms e := by
  refine ⟨(attempts_append_of_not hd).trans h.attempted, ?_⟩
  rw [InOrder, deeds_append_of_not hd]
  exact h.ordered

end Others

theorem Recorded.of_other (h : Recorded τ k x.supervisor id) (hx : x.Owned) (hhappens : x.Happens m x')
    (ht : x.threads[k]? = some t) (hmark : t.marked? = some id) (hrecorded : t.hasRecorded = true)
    (hother : Deed.isOf k ⟨x, m, x'⟩ = false) : Recorded (τ ++ [⟨x, m, x'⟩]) k x'.supervisor id := by
  rcases hhappens.record hx ht hmark hother with hsame | ⟨hforeign, ts, hts⟩
  · rcases h with ⟨r, hr, hgoes⟩ | ⟨⟨r, hr, hend⟩, d, hd, hrobs⟩
    · exact .inl ⟨r, hsame.trans hr, hgoes⟩
    · exact .inr ⟨⟨r, hsame.trans hr, hend⟩, d, List.mem_append_left _ hd, hrobs⟩
  · rcases h with ⟨r, hr, hgoes⟩ | ⟨hended, d, hd, hrobs⟩
    · have hnow : x'.supervisor.registry.get? id = some (r.after ts) := by rw [hts, hr, Option.map_some]
      cases hend : (r.after ts).status.isTerminal with
      | false => exact .inl ⟨_, hnow, hend⟩
      | true =>
          have hended : x'.supervisor.HasEnded id := ⟨_, hnow, hend⟩
          exact .inr ⟨hended, ⟨x, m, x'⟩, List.mem_append_right _ (List.mem_singleton_self _),
            ⟨t, ht, hrecorded⟩, hforeign, ⟨r, hr, hgoes⟩, hended⟩
    · exact .inr ⟨hended.after ⟨ts, hts⟩, d, List.mem_append_left _ hd, hrobs⟩

theorem Given.of_other (h : Given τ k x.supervisor id e) (hx : x.Owned) (hhappens : x.Happens m x')
    (ht : x.threads[k]? = some t) (hmark : t.marked? = some id) (hother : Deed.isOf k ⟨x, m, x'⟩ = false) :
    Given (τ ++ [⟨x, m, x'⟩]) k x'.supervisor id e := by
  have hrecord : ∃ ts, x'.supervisor.registry.get? id = (x.supervisor.registry.get? id).map (·.after ts) :=
    (hhappens.record hx ht hmark hother).elim Supervisor.record_refl And.right
  rcases h with ⟨r, hr, hfailed, hmessage⟩ | ⟨hended, d, hd, hrobs⟩
  · obtain ⟨ts, hts⟩ := hrecord
    have hend : r.status.isTerminal = true := by rw [hfailed]; rfl
    exact .inl ⟨r, by rw [hts, hr, Option.map_some, RunState.after_of_terminal hend], hfailed, hmessage⟩
  · exact .inr ⟨hended.after hrecord, d, List.mem_append_left _ hd, hrobs⟩

theorem Story.of_other (h : Story τ k x.supervisor t) (hx : x.Owned) (hhappens : x.Happens m x')
    (ht : x.threads[k]? = some t) (hother : Deed.isOf k ⟨x, m, x'⟩ = false) :
    Story (τ ++ [⟨x, m, x'⟩]) k x'.supervisor t := by
  have hgone {i : Nat} (hi : x.supervisor.Gone i) : x'.supervisor.Gone i := hhappens.ages.gone hi
  have hattempts : attempts (τ ++ [⟨x, m, x'⟩]) k = attempts τ k := attempts_append_of_not hother
  cases t with
  | calling c =>
      cases c with
      | start id o stage =>
          cases stage with
          | unwinding t e =>
              obtain ⟨ms, gone, hbroken, hrest, hall, hrecorded⟩ := h
              exact ⟨ms, gone, hbroken.of_other hother, hrest, fun i hi => hgone (hall i hi),
                hrecorded.of_other hx hhappens ht rfl rfl hother⟩
          | enlisting g r => exact AllStarted.of_other h hother
          | _ => exact Spotless.of_other h hother
      | _ => exact hattempts.trans h
  | launching l stage =>
      cases stage with
      | numbering => exact Spotless.of_other h hother
      | forgetting => exact Spotless.of_other h hother
      | recording =>
          refine ⟨hattempts.trans h.1, ?_⟩
          rcases hhappens.record hx ht rfl hother with hsame | ⟨-, ts, hts⟩
          · exact hsame.trans h.2
          · rw [hts, h.2, Option.map_none]
      | spawning specs ms =>
          obtain ⟨hall, huntouched, hrecorded⟩ := h
          exact ⟨hattempts.trans hall, huntouched.of_other hother,
            hrecorded.of_other hx hhappens ht rfl rfl hother⟩
  | failing id e =>
      obtain ⟨ms, hbroken, hall, hrecorded⟩ := h
      exact ⟨ms, hbroken.of_other hother, fun m hm => hgone (hall m hm),
        hrecorded.of_other hx hhappens ht rfl rfl hother⟩
  | leaving id o =>
      cases o with
      | refused e => exact ⟨h.1.of_other hother, h.2.of_other hother⟩
      | failed e =>
          obtain ⟨ms, hbroken, hall, hgiven⟩ := h
          exact ⟨ms, hbroken.of_other hother, fun m hm => hgone (hall m hm),
            hgiven.of_other hx hhappens ht rfl hother⟩
      | entered r => exact AllStarted.of_other h hother
  | answered a =>
      cases a with
      | started r =>
          cases r with
          | ok r => exact AllStarted.of_other h hother
          | error e =>
              rcases h with ⟨hspotless, hrefused⟩ | ⟨ms, hbroken, hall⟩
              · exact .inl ⟨hspotless.of_other hother, hrefused.of_other hother⟩
              · exact .inr ⟨ms, hbroken.of_other hother, fun m hm => hgone (hall m hm)⟩
      | _ => exact hattempts.trans h
  | _ => exact hattempts.trans h

/-! ### What a start does itself -/

section Own

variable {d : Deed}

theorem deeds_append_of (hmove : d.move = .proceed k env) : deeds (τ ++ [d]) k = deeds τ k ++ [d] := by
  simp [deeds, Deed.isOf, hmove]

theorem mem_deeds_append (hmove : d.move = .proceed k env) {d' : Deed} (hd' : d' ∈ deeds (τ ++ [d]) k) :
    d' ∈ deeds τ k ∨ d' = d := by
  rw [deeds_append_of hmove] at hd'
  exact (List.mem_append.mp hd').imp_right List.mem_singleton.mp

theorem attempts_append_of (hmove : d.move = .proceed k env) (ht : d.before.threads[k]? = some t) :
    attempts (τ ++ [d]) k = attempts τ k ++ (t.attempt? env d.before.supervisor).toList := by
  have hattempt : d.attempt? = t.attempt? env d.before.supervisor := by
    rw [Deed.attempt?, hmove]
    simp only [ht, Option.bind_some]
  rw [attempts, deeds_append_of hmove, List.filterMap_append, attempts]
  congr 1
  cases h : t.attempt? env d.before.supervisor <;> simp [hattempt, h]

theorem attempts_append_of_none (hmove : d.move = .proceed k env) (ht : d.before.threads[k]? = some t)
    (hnone : t.attempt? env d.before.supervisor = none) : attempts (τ ++ [d]) k = attempts τ k := by
  rw [attempts_append_of hmove ht, hnone, Option.toList_none, List.append_nil]

theorem Spotless.append (h : Spotless τ k) (hmove : d.move = .proceed k env) (ht : d.before.threads[k]? = some t)
    (hnone : t.attempt? env d.before.supervisor = none) (hsilent : d.Silent) : Spotless (τ ++ [d]) k := by
  refine ⟨(attempts_append_of_none hmove ht hnone).trans h.attempted, fun d' hd' => ?_⟩
  rcases mem_deeds_append hmove hd' with hd' | rfl
  · exact h.silent d' hd'
  · exact hsilent

theorem AllStarted.append (h : AllStarted τ k) (hmove : d.move = .proceed k env)
    (ht : d.before.threads[k]? = some t) (hnone : t.attempt? env d.before.supervisor = none) :
    AllStarted (τ ++ [d]) k := by
  rwa [AllStarted, attempts_append_of_none hmove ht hnone]

theorem Broken.append (h : Broken τ k ms e) (hmove : d.move = .proceed k env) (ht : d.before.threads[k]? = some t)
    (hnone : t.attempt? env d.before.supervisor = none)
    (hnext : ∀ i, d.after.supervisor.processes[i]? ≠ d.before.supervisor.processes[i]? →
      ∃ earlier later, Member.shutdownOrder ms = earlier ++ i :: later ∧ ∀ j ∈ earlier, d.before.supervisor.Gone j) :
    Broken (τ ++ [d]) k ms e := by
  refine ⟨(attempts_append_of_none hmove ht hnone).trans h.attempted, fun d' hd' i hi p hp hchanged => ?_⟩
  rcases mem_deeds_append hmove hd' with hd' | rfl
  · exact h.ordered d' hd' i hi p hp hchanged
  · exact hnext i fun hsame => hchanged (hsame.trans hp)

theorem Broken.append_of_same (h : Broken τ k ms e) (hmove : d.move = .proceed k env)
    (ht : d.before.threads[k]? = some t) (hnone : t.attempt? env d.before.supervisor = none)
    (hsame : d.after.supervisor.processes = d.before.supervisor.processes) : Broken (τ ++ [d]) k ms e :=
  h.append hmove ht hnone fun _ hchanged => absurd (by rw [hsame]) hchanged

/-- A start that cannot start the next process has not done anything to the others yet. -/
theorem Untouched.broken (h : Untouched τ k ms) (hall : attempts τ k = ms.map .ok) (hmove : d.move = .proceed k env)
    (ht : d.before.threads[k]? = some t) (hfailed : t.attempt? env d.before.supervisor = some (.error e))
    (hgrown : d.before.supervisor.Grown d.after.supervisor) : Broken (τ ++ [d]) k ms e := by
  refine ⟨by rw [attempts_append_of hmove ht, hall, hfailed, Option.toList_some], fun d' hd' i hi p hp hchanged => ?_⟩
  rcases mem_deeds_append hmove hd' with hd' | rfl
  · exact absurd (h d' hd' i hi p hp) hchanged
  · exact absurd ((hgrown.getElem?_processes (List.getElem?_eq_some_iff.mp hp).1).trans hp) hchanged

theorem Recorded.append (h : Recorded τ k d.before.supervisor id)
    (hsame : d.after.supervisor.registry = d.before.supervisor.registry) :
    Recorded (τ ++ [d]) k d.after.supervisor id := by
  rw [Recorded, Supervisor.HasEnded, hsame]
  exact h.imp_right fun ⟨hended, d', hd', hrobs⟩ => ⟨hended, d', List.mem_append_left _ hd', hrobs⟩

/-- A start fails the run that it has made known, unless that has ended. -/
theorem Recorded.given (h : Recorded τ k d.before.supervisor id)
    (hfail : d.after.supervisor.registry =
      (d.before.supervisor.registry.fail id ("Failed to start pipeline: " ++ e.message)).2) :
    Given (τ ++ [d]) k d.after.supervisor id e := by
  set t : Transition := .fail ("Failed to start pipeline: " ++ e.message)
  have hown := (Registry.Turns.call t d.before.supervisor.registry id).own
  rw [Given, Supervisor.HasEnded, hfail]
  rcases h with ⟨r, hr, hgoes⟩ | ⟨⟨r, hr, hend⟩, d', hd', hrobs⟩
  · have hmoved : (t.act r).1 = true := by simp [t, Transition.act_fail, hgoes]
    obtain ⟨hstatus, hmessage⟩ := Prod.mk.inj (Transition.outcome_act (by rfl) hmoved)
    exact .inl ⟨(t.act r).2, hown.trans (by rw [hr]; rfl), hstatus, hmessage⟩
  · refine .inr ⟨⟨r, ?_, hend⟩, d', List.mem_append_left _ hd', hrobs⟩
    exact hown.trans (by rw [hr, Option.map_some, RunState.after_of_terminal hend])

end Own

theorem exists_anyAlive (s : Supervisor) (g : Nat) :
    ∃ ps, (s.anyAlive g).2 = { s with processes := ps } ∧ ps.length = s.processes.length := by
  have hlength := (Supervisor.Quiet.anyAlive s g).length_processes
  rw [Supervisor.anyAlive] at hlength ⊢
  cases hg : s.generations[g]? with
  | none => exact ⟨s.processes, rfl, rfl⟩
  | some y =>
      rw [hg] at hlength
      exact ⟨_, rfl, hlength⟩

theorem process_of_spawn {s : Supervisor} {spec : WorkerSpec} {m : Member} (h : s.spawn env spec = (.ok m, s')) :
    m.process = s.processes.length := by
  obtain ⟨new, ps, hnew, -, hrange, -⟩ := Supervisor.spawnAll_members (Supervisor.spawnAll_of_ok h [])
  obtain rfl : new = [m] := hnew.symm
  cases ps with
  | nil => cases hrange
  | cons p ps => exact (List.cons.inj hrange).1

theorem Untouched.append {d : Deed} {m : Member} (h : Untouched τ k ms) (hmove : d.move = .proceed k env)
    (hpast : ∀ d' ∈ τ, d'.before.supervisor.processes.length ≤ d.before.supervisor.processes.length)
    (hprocess : m.process = d.before.supervisor.processes.length)
    (hgrown : d.before.supervisor.Grown d.after.supervisor) : Untouched (τ ++ [d]) k (ms ++ [m]) := by
  intro d' hd' i hi p hp
  have hlt := (List.getElem?_eq_some_iff.mp hp).1
  rcases mem_deeds_append hmove hd' with hd' | rfl
  · rw [List.map_append] at hi
    rcases List.mem_append.mp hi with hi | hi
    · exact h d' hd' i hi p hp
    -- the new process was not there before
    · obtain rfl := List.mem_singleton.mp hi
      exact absurd (hpast d' (List.mem_filter.mp hd').1) (not_le.mpr (hprocess ▸ hlt))
  · rw [hgrown.getElem?_processes hlt, hp]

theorem story_calling_iff {s : Supervisor} {c : Call} (hc : c.isStart = false) :
    Story τ k s (.calling c) ↔ attempts τ k = [] := by
  cases c with
  | start id o stage => cases hc
  | _ => exact Iff.rfl

theorem story_answered_iff {s : Supervisor} {a : Answer} (ha : ∀ r, a ≠ .started r) :
    Story τ k s (.answered a) ↔ attempts τ k = [] := by
  cases a with
  | started r => exact absurd rfl (ha r)
  | _ => exact Iff.rfl

/-- A start goes on with shutting down what it has started. -/
theorem Owned.next_front (hx : x.Owned) {o : StartOptions} {u u' : Teardown}
    (ht : x.threads[k]? = some (.calling (.start id o (.unwinding u e)))) (hnext : u.next x.supervisor = .later u' s') :
    (∃ front, u.processes = front ++ u'.processes ∧ ∀ i ∈ front, s'.Gone i) ∧
      ∀ i, s'.processes[i]? ≠ x.supervisor.processes[i]? → ∃ rest, u.processes = i :: rest := by
  have hmem := List.mem_of_getElem? ht
  have hfits : x.supervisor.Fits (.unwinding id u) := hx.sound.fits _ (List.mem_map_of_mem hmem)
  exact Teardown.next_front hx.sound.honest hfits.2 (hx.contained _ hmem) hnext

theorem Story.step (h : Story τ k x.supervisor t) (hx : x.Owned)
    (hpast : ∀ d ∈ τ, d.before.supervisor.processes.length ≤ x.supervisor.processes.length)
    (ht : x.threads[k]? = some t) (hdoes : Thread.Does env x.supervisor t t' s') (hafter : x'.supervisor = s') :
    Story (τ ++ [⟨x, .proceed k env, x'⟩]) k s' t' := by
  set d : Deed := ⟨x, .proceed k env, x'⟩ with hd
  have hmove : d.move = .proceed k env := rfl
  have hbefore : d.before.threads[k]? = some t := ht
  have hlast : d ∈ deeds (τ ++ [d]) k := by
    rw [deeds_append_of hmove]
    exact List.mem_append_right _ (List.mem_singleton_self d)
  have hnothing (hnone : t.attempt? env x.supervisor = none) (hempty : attempts τ k = []) :
      attempts (τ ++ [d]) k = [] := (attempts_append_of_none hmove hbefore hnone).trans hempty
  have hspotless (hspotless : Spotless τ k) (hnone : t.attempt? env x.supervisor = none)
      (hbus : s'.bus = x.supervisor.bus) (hlaunched : s'.launched = x.supervisor.launched)
      (hlength : s'.processes.length = x.supervisor.processes.length) : Spotless (τ ++ [d]) k :=
    hspotless.append hmove hbefore hnone ⟨hafter ▸ hbus, hafter ▸ hlaunched, hafter ▸ hlength⟩
  -- the calls that are no starts start nothing; a start goes on from stage to stage
  cases hdoes with
  | later hc hstep =>
      have habstains := Supervisor.abstains_step env (s := x.supervisor) hc
      rw [hstep] at habstains
      exact (story_calling_iff habstains.1).mpr (hnothing rfl ((story_calling_iff hc).mp h))
  | answers hc hstep =>
      have habstains := Supervisor.abstains_step env (s := x.supervisor) hc
      rw [hstep] at habstains
      exact (story_answered_iff habstains.1).mpr (hnothing rfl ((story_calling_iff hc).mp h))
  | @concludes id moved =>
      have habstains : x.supervisor.Abstains (.answer (x.supervisor.concludeAbort id moved).1 _) :=
        Supervisor.abstains_concludeAbort rfl moved
      exact (story_answered_iff habstains.1).mpr (hnothing rfl h)
  | joined | doubts | unknown | known => exact hnothing rfl h
  | barred => exact .inl ⟨hspotless h rfl rfl rfl rfl, d, hlast, k, env, _, _, _, rfl, ht, .running⟩
  | unfit _ hrefusal => exact ⟨hspotless h rfl rfl rfl rfl, d, hlast, k, env, _, _, _, rfl, ht, hrefusal⟩
  | marks | waived | takes | fetched | compiled | numbers => exact hspotless h rfl rfl rfl rfl
  | @alive id o g =>
      obtain ⟨ps, hps, hlength⟩ := exists_anyAlive x.supervisor g
      rw [hps] at hspotless
      exact ⟨hspotless h rfl rfl rfl hlength, d, hlast, k, env, _, _, _, rfl, ht, .running⟩
  | @dead id o g _ =>
      obtain ⟨ps, hps, hlength⟩ := exists_anyAlive x.supervisor g
      rw [hps] at hspotless
      exact hspotless h rfl rfl rfl hlength
  | @refused id o stage e hcleared hrefusal =>
      have hstory : Spotless τ k := by
        cases stage with
        | fetching => exact h
        | validating graph => exact h
        | _ => cases hcleared
      exact ⟨hspotless hstory rfl rfl rfl rfl, d, hlast, k, env, _, _, _, rfl, ht, hrefusal⟩
  | forgets =>
      refine ⟨(attempts_append_of_none hmove hbefore rfl).trans h.attempted, ?_⟩
      exact (Registry.get?_reset _ _ _).trans (if_pos rfl)
  | @records l =>
      refine ⟨(attempts_append_of_none hmove hbefore rfl).trans h.1, ?_,
        .inl ⟨.initial l.id l.plan.clusters.length, ?_, rfl⟩⟩
      · exact fun d' _ i hi => absurd hi List.not_mem_nil
      · refine (Registry.get?_init _ _ _ _).trans ((if_pos rfl).trans ?_)
        rw [h.2, Option.getD_none]
  | @spawns l spec specs ms m s' hspawn =>
      -- one more attempt that succeeded, and a process that nobody has touched yet
      obtain ⟨hall, huntouched, hrecorded⟩ := h
      have hgrown := (Supervisor.spawnAll_spec (Supervisor.spawnAll_of_ok hspawn [])).1
      refine ⟨?_, huntouched.append hmove hpast (process_of_spawn hspawn) (hafter ▸ hgrown), ?_⟩
      · rw [attempts_append_of hmove hbefore, hall, List.map_append]
        simp [Thread.attempt?, hd, hspawn]
      · exact hafter ▸ hrecorded.append (d := d) (by rw [hafter, Thread.registry_of_spawn hspawn])
  | @breaks l spec specs ms e s' hspawn =>
      obtain ⟨hall, huntouched, hrecorded⟩ := h
      have hgrown := (Supervisor.spawnAll_spec (Supervisor.spawnAll_of_error hspawn [])).1
      -- the attempt that failed is the last one, and all that was started is still to be shut down
      have hfailed :
          (Thread.launching l (.spawning (spec :: specs) ms)).attempt? env x.supervisor = some (.error e) := by
        rw [Thread.attempt?, hspawn]
      have hbroken := huntouched.broken hall hmove hbefore hfailed (hafter ▸ hgrown)
      refine ⟨ms, [], hbroken, rfl, fun i hi => absurd hi List.not_mem_nil, ?_⟩
      exact hafter ▸ hrecorded.append (d := d) (by rw [hafter, Thread.registry_of_spawn hspawn])
  | @enrols l y _ _ => exact ⟨y.members, (attempts_append_of_none hmove hbefore rfl).trans h.1⟩
  | @unwinds id o u u' e s' hnext =>
      obtain ⟨ms, gone, hbroken, horder, hall, hrecorded⟩ := h
      obtain ⟨⟨front, hfront, hleft⟩, hfirst⟩ := hx.next_front ht hnext
      have hquiet := Teardown.quiet_of_next_later hnext
      refine ⟨ms, gone ++ front, hbroken.append hmove hbefore rfl fun i hchanged => ?_, ?_, fun i hi => ?_, ?_⟩
      -- only the first of those that are left is touched
      · obtain ⟨rest, hrest⟩ := hfirst i (hafter ▸ hchanged)
        exact ⟨gone, rest, hrest ▸ horder, hall⟩
      · rw [horder, hfront, List.append_assoc]
      · exact (List.mem_append.mp hi).elim (fun hi => hquiet.gone (hall i hi)) (hleft i)
      · have hregistry : s'.registry = x.supervisor.registry := by
          obtain ⟨ps, rfl⟩ := Supervisor.eq_of_next_later hnext
          rfl
        exact hafter ▸ hrecorded.append (d := d) (hafter ▸ hregistry)
  | @unwound id o u e hempty =>
      obtain ⟨ms, gone, hbroken, horder, hall, hrecorded⟩ := h
      rw [hempty, List.append_nil] at horder
      refine ⟨ms, hbroken.append_of_same hmove hbefore rfl (hafter ▸ rfl), fun m hm => ?_, ?_⟩
      · exact hall _ (horder ▸ Supervisor.mem_shutdownOrder.mpr (List.mem_map_of_mem hm))
      · exact hafter ▸ hrecorded.append (d := d) (hafter ▸ rfl)
  | @fails id e =>
      obtain ⟨ms, hbroken, hall, hrecorded⟩ := h
      refine ⟨ms, hbroken.append_of_same hmove hbefore rfl (hafter ▸ rfl), hall, ?_⟩
      exact hafter ▸ hrecorded.given (d := d) (hafter ▸ rfl)
  | enters => exact AllStarted.append h hmove hbefore rfl
  | @leaves id o =>
      cases o with
      | refused e =>
          obtain ⟨hspotless', d', hd', hrefuses⟩ := h
          refine .inl ⟨hspotless hspotless' rfl rfl rfl rfl, d', ?_, hrefuses⟩
          rw [deeds_append_of hmove]
          exact List.mem_append_left _ hd'
      | failed e =>
          obtain ⟨ms, hbroken, hall, -⟩ := h
          exact .inr ⟨ms, hbroken.append_of_same hmove hbefore rfl (hafter ▸ rfl), hall⟩
      | entered r => exact AllStarted.append h hmove hbefore rfl

/-! ### Histories -/

theorem Happens.length_le (h : x.Happens m x') : x.threads.length ≤ x'.threads.length := by
  cases h with
  | asks _ => simp
  | goes _ _ => simp
  | drifts _ _ => exact le_rfl

theorem History.past (h : History config τ x) :
    ∀ d ∈ τ, d.before.supervisor.processes.length ≤ x.supervisor.processes.length := by
  induction h with
  | start => exact fun d hd => absurd hd List.not_mem_nil
  | @move τ x x' m _ hplay ih =>
      have hlength := (happens_of_play hplay).ages.length_processes
      intro d hd
      rcases List.mem_append.mp hd with hd | hd
      · exact (ih d hd).trans hlength
      · obtain rfl := List.mem_singleton.mp hd
        exact hlength

theorem History.deeds_eq_nil (h : History config τ x) (hk : x.threads.length ≤ k) : deeds τ k = [] := by
  induction h with
  | start => rfl
  | @move τ x x' m _ hplay ih =>
      have hhappens := happens_of_play hplay
      rw [deeds_append_of_not, ih (hhappens.length_le.trans hk)]
      cases hhappens with
      | goes hu _ =>
          have hlt := (List.getElem?_eq_some_iff.mp hu).1
          rw [List.length_set] at hk
          exact decide_eq_false fun hl => absurd hlt (not_lt.mpr (hl ▸ hk))
      | asks _ => rfl
      | @drifts m _ hmove _ =>
          cases m with
          | proceed l env => exact absurd rfl (hmove l env)
          | _ => rfl

theorem story_of_isNew {s : Supervisor} {c : Call} (hc : c.isNew = true) (hdeeds : deeds τ k = []) :
    Story τ k s (.calling c) := by
  have hspotless : Spotless τ k :=
    ⟨by rw [attempts, hdeeds, List.filterMap_nil], fun d hd => absurd (hdeeds ▸ hd) List.not_mem_nil⟩
  cases c with
  | start id o stage =>
      cases stage with
      | asked => exact hspotless
      | _ => cases hc
  | _ => exact hspotless.attempted

/-- What is known of a thread when its call is made, and goes on with every step of its own and whatever others do, is
known of it at every point of every interleaving. -/
theorem History.follows {P : List Deed → Nat → Supervisor → Thread → Prop}
    (hnew : ∀ {τ : List Deed} {x : Threads} {c : Call}, History config τ x → c.isNew = true →
      P (τ ++ [⟨x, .ask c, { x with threads := x.threads ++ [.calling c] }⟩]) x.threads.length x.supervisor (.calling c))
    (hother : ∀ {τ : List Deed} {x x' : Threads} {m : Move} {k : Nat} {t : Thread}, History config τ x →
      x.Happens m x' → x.threads[k]? = some t → Deed.isOf k ⟨x, m, x'⟩ = false → P τ k x.supervisor t →
        P (τ ++ [⟨x, m, x'⟩]) k x'.supervisor t)
    (hown : ∀ {τ : List Deed} {x : Threads} {k : Nat} {env : Surroundings} {t t' : Thread} {s' : Supervisor},
      History config τ x → x.threads[k]? = some t → Thread.Does env x.supervisor t t' s' → P τ k x.supervisor t →
        P (τ ++ [⟨x, .proceed k env, ⟨s', x.threads.set k t'⟩⟩]) k s' t')
    (h : History config τ x) (ht : x.threads[k]? = some t) : P τ k x.supervisor t := by
  induction h generalizing k t with
  | start => cases ht
  | @move τ x x' m h hplay ih =>
      have hhappens := happens_of_play hplay
      -- a thread is new, moves itself, or looks on while others move
      cases hhappens with
      | @asks c hnew' =>
          rcases lt_or_ge k x.threads.length with hlt | hge
          · rw [List.getElem?_append_left hlt] at ht
            exact hother h (happens_of_play hplay) ht rfl (ih ht)
          · obtain ⟨hlt, -⟩ := List.getElem?_eq_some_iff.mp ht
            rw [List.length_append, List.length_singleton] at hlt
            obtain rfl : k = x.threads.length := Nat.le_antisymm (Nat.le_of_lt_succ hlt) hge
            obtain rfl : t = .calling c := by
              rw [List.getElem?_append_right hge] at ht
              exact List.mem_singleton.mp (List.mem_of_getElem? ht)
            exact hnew h hnew'
      | @goes l env u u' s' hu hdoes =>
          by_cases hl : l = k
          · subst hl
            obtain ⟨hlt, -⟩ := List.getElem?_eq_some_iff.mp hu
            obtain rfl : u' = t := by
              rw [List.getElem?_set_self hlt] at ht
              exact Option.some.inj ht
            exact hown h hu hdoes (ih hu)
          · rw [List.getElem?_set_ne hl] at ht
            exact hother h (happens_of_play hplay) ht (decide_eq_false hl) (ih ht)
      | @drifts m s' hmove hdrifts =>
          refine hother h (happens_of_play hplay) ht ?_ (ih ht)
          cases m with
          | proceed l env => exact absurd rfl (hmove l env)
          | _ => rfl

/-- What is known of a start at its stage is so at every point of every interleaving. -/
theorem History.story (h : History config τ x) (ht : x.threads[k]? = some t) : Story τ k x.supervisor t := by
  refine h.follows (P := Story) (fun h hnew => ?_) (fun h hhappens ht hother hstory => ?_)
    (fun h ht hdoes hstory => ?_) ht
  · exact story_of_isNew hnew ((deeds_append_of_not rfl).trans (h.deeds_eq_nil le_rfl))
  · exact hstory.of_other h.reachable.owned hhappens ht hother
  · exact hstory.step h.reachable.owned h.past ht hdoes rfl

end Threads

end Pipeworks
