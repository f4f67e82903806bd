import Pipeworks.Proofs.Supervisor.Effects
import Pipeworks.Proofs.Supervisor.Ticks

/-!
Whose processes are whose. A process belongs to one generation, or is in the hands of one start that could not start
all of its processes; and whoever shuts down processes, a monitor or a call, shuts down its own. So a step asks nobody
to stop but the processes of the one who makes it.
-/

namespace Pipeworks

namespace Generation

def processes (x : Generation) : List Nat := x.members.map (·.process)

/-- What of a generation only its monitor changes. -/
def core (x : Generation) : Generation := { x with startedAt := 0, held := false, cancelled := false }

end Generation

def Stake.doomed : Stake → List Nat
  | ending runs => runs.map (·.2.1)
  | _ => []

def Takedown.list : Takedown → List Nat
  | stopping t => t.processes
  | _ => []

namespace Supervisor

variable {s s' : Supervisor} {st st' : Stake} {stakes others : List Stake} {id : PipelineId} {g i : Nat}

def cores (s : Supervisor) : List Generation := s.generations.map Generation.core

theorem getElem?_cores {x : Generation} (h : s.generations[g]? = some x) : s.cores[g]? = some x.core := by
  rw [cores, List.getElem?_map, h, Option.map_some]

theorem cores_modifyGeneration (s : Supervisor) (g : Nat) {f : Generation → Generation}
    (hf : ∀ x, (f x).core = x.core) : (s.modifyGeneration g f).cores = s.cores := by
  apply List.ext_getElem?
  intro j
  change ((s.generations.modify g f).map Generation.core)[j]? = (s.generations.map Generation.core)[j]?
  rw [List.getElem?_map, List.getElem?_map, List.getElem?_modify]
  cases s.generations[j]? with
  | none => rfl
  | some x =>
      change some (if g = j then f x else x).core = some x.core
      split_ifs
      · rw [hf]
      · rfl

theorem cores_cancel (s : Supervisor) (g : Nat) : (s.cancel g).cores = s.cores :=
  cores_modifyGeneration s g fun _ => rfl

theorem cores_of_generations (h : s'.generations = s.generations) : s'.cores = s.cores :=
  congrArg (·.map Generation.core) h

theorem cores_enrol (s : Supervisor) (x : Generation) : (s.enrol x).cores = s.cores ++ [x.core] := List.map_append

theorem crew_of_cores (h : s'.cores[g]? = s.cores[g]?) : s'.crew g = s.crew g := by
  have hcrew (s : Supervisor) : s.crew g = ((s.cores[g]?).map Generation.processes).getD [] := by
    rw [crew, cores, List.getElem?_map, Option.map_map]
    rfl
  rw [hcrew, hcrew, h]

/-! ### Starting processes -/

/-- The processes that were started one after another, with the members that stand for them. -/
theorem spawnAll_members {env : Surroundings} {specs : List WorkerSpec} {ms ms' : List Member} {e : Option Error}
    (h : spawnAll env specs ms s = (e, ms', s')) :
    ∃ new ps, ms' = ms ++ new ∧ s'.processes = s.processes ++ ps ∧
      new.map (·.process) = List.range' s.processes.length ps.length ∧ (∀ p ∈ ps, p.stopRequested = false) ∧
      (e = none → new.map (·.isProducer) = specs.map (·.isProducer)) := by
  induction specs generalizing ms s with
  | nil =>
      obtain ⟨rfl, rfl, rfl⟩ : none = e ∧ ms = ms' ∧ s = s' := by simpa [spawnAll] using h
      exact ⟨[], [], by simp, by simp, by simp, by simp, fun _ => rfl⟩
  | cons spec specs ih =>
      rw [spawnAll, spawn] at h
      cases hlaunch : (env.launch s.launched.length spec).bind (Subprocess.launch spec.label s.now) with
      | error err =>
          simp only [hlaunch] at h
          obtain ⟨rfl, rfl, rfl⟩ : some err = e ∧ ms = ms' ∧ { s with launched := s.launched ++ [spec] } = s' := by
            simpa using h
          exact ⟨[], [], by simp, by simp, by simp, by simp, fun h => absurd h (by simp)⟩
      | ok p =>
          simp only [hlaunch] at h
          obtain ⟨new, ps, rfl, hps, hnumbers, hunasked, hroles⟩ := ih h
          have hp : p.stopRequested = false := by
            cases hcommand : env.launch s.launched.length spec with
            | error err =>
                rw [hcommand] at hlaunch
                exact absurd hlaunch (by simp [Except.bind])
            | ok r =>
                rw [hcommand] at hlaunch
                exact Subprocess.stopRequested_launch _ _ hlaunch
          refine ⟨⟨s.processes.length, spec.segment, spec.isProducer⟩ :: new, p :: ps, ?_, ?_, ?_, ?_, fun he => ?_⟩
          · exact List.append_assoc _ _ _
          · rw [hps]
            exact List.append_assoc _ _ _
          · rw [List.map_cons, hnumbers, List.length_cons, List.range'_succ, List.length_append]
            rfl
          · intro q hq
            rcases List.mem_cons.mp hq with rfl | hq
            · exact hp
            · exact hunasked q hq
          · rw [List.map_cons, List.map_cons, hroles he]

/-! ### Who may hold what -/

def belongings (s : Supervisor) (stakes : List Stake) : List Nat :=
  s.cores.flatMap Generation.processes ++ stakes.flatMap Stake.leftover

def Keeps (s : Supervisor) : Stake → Prop
  | .ending runs => ∀ r ∈ runs, r.2.2.list ⊆ s.crew r.2.1
  | _ => True

/-- Every process is somebody's, and whoever stops processes stops its own. -/
structure Allotted (s : Supervisor) (stakes : List Stake) : Prop where
  once : (s.belongings stakes).Nodup
  known : ∀ i ∈ s.belongings stakes, i < s.processes.length
  watched : ∀ x ∈ s.cores, ∀ t, x.monitor.teardown? = some t → t.processes ⊆ x.processes
  kept : ∀ st ∈ stakes, s.Keeps st

theorem Keeps.of_crews (h : s.Keeps st) (hcrews : ∀ g i, i ∈ s.crew g → i ∈ s'.crew g) : s'.Keeps st := by
  cases st with
  | ending runs => exact fun r hr i hi => hcrews _ _ (h r hr hi)
  | _ => trivial

theorem keeps_of_tended (h : st.tended = []) : s.Keeps st := by
  cases st with
  | ending runs =>
      obtain rfl : runs = [] := List.map_eq_nil_iff.mp h
      exact fun r hr => absurd hr List.not_mem_nil
  | _ => trivial

namespace Allotted

theorem perm {stakes' : List Stake} (h : s.Allotted stakes) (hp : stakes.Perm stakes') : s.Allotted stakes' := by
  have hbelongings : (s.belongings stakes).Perm (s.belongings stakes') := (hp.flatMap_right _).append_left _
  exact ⟨hbelongings.nodup_iff.mp h.once, fun i hi => h.known i (hbelongings.mem_iff.mpr hi), h.watched,
    fun st hst => h.kept st (hp.mem_iff.mpr hst)⟩

theorem keep (h : s.Allotted (st :: others)) (hcores : s'.cores = s.cores)
    (hlength : s.processes.length ≤ s'.processes.length) (hleftover : st'.leftover.Sublist st.leftover)
    (hkeeps : s.Keeps st') : s'.Allotted (st' :: others) := by
  have hsub : (s'.belongings (st' :: others)).Sublist (s.belongings (st :: others)) := by
    rw [belongings, belongings, List.flatMap_cons, List.flatMap_cons, hcores]
    exact (hleftover.append_right _).append_left _
  have hcrews (g i : Nat) (hi : i ∈ s.crew g) : i ∈ s'.crew g := by
    rwa [crew_of_cores (congrArg (·[g]?) hcores)]
  refine ⟨h.once.sublist hsub, fun i hi => ?_, fun x hx => h.watched x (hcores ▸ hx), fun other hother => ?_⟩
  · exact lt_of_lt_of_le (h.known i (hsub.subset hi)) hlength
  · rcases List.mem_cons.mp hother with rfl | hother
    · exact hkeeps.of_crews hcrews
    · exact (h.kept other (List.mem_cons_of_mem _ hother)).of_crews hcrews

/-- Generations are added, processes are started, and what a call has and what the new generations have is what the call
had before and what was started. -/
theorem rebook (h : s.Allotted (st :: others)) {xs : List Generation} (hcores : s'.cores = s.cores ++ xs)
    (hkeeps : s'.Keeps st') (hlength : s.processes.length ≤ s'.processes.length)
    (hfresh : ∀ x ∈ xs, x.monitor.teardown? = none)
    (hnew : (xs.flatMap Generation.processes ++ st'.leftover).Perm
      (st.leftover ++ List.range' s.processes.length (s'.processes.length - s.processes.length))) :
    s'.Allotted (st' :: others) := by
  have hbelongings : (s'.belongings (st' :: others)).Perm
      (s.belongings (st :: others) ++ List.range' s.processes.length (s'.processes.length - s.processes.length)) := by
    rw [belongings, belongings, List.flatMap_cons, List.flatMap_cons, hcores, List.flatMap_append, List.append_assoc,
      List.append_assoc]
    refine List.Perm.append_left _ ?_
    rw [← List.append_assoc, List.append_assoc st.leftover]
    refine (hnew.append_right _).trans ?_
    rw [List.append_assoc]
    exact List.perm_append_comm.append_left _
  have hcrews (g i : Nat) (hi : i ∈ s.crew g) : i ∈ s'.crew g := by
    have hlt : g < s.cores.length := by
      rw [cores, List.length_map]
      by_contra hge
      rw [crew_eq_nil (not_lt.mp hge)] at hi
      exact absurd hi List.not_mem_nil
    have hsame : s'.cores[g]? = s.cores[g]? := by rw [hcores, List.getElem?_append_left hlt]
    rwa [crew_of_cores hsame]
  refine ⟨hbelongings.nodup_iff.mpr (List.nodup_append.mpr ⟨h.once, List.nodup_range', ?_⟩), fun i hi => ?_, ?_,
    fun other hother => ?_⟩
  · rintro i hi j hj rfl
    have hlt := h.known i hi
    have hge := (List.mem_range'_1.mp hj).1
    omega
  · rcases List.mem_append.mp (hbelongings.mem_iff.mp hi) with hi | hi
    · exact lt_of_lt_of_le (h.known i hi) hlength
    · have hlt := (List.mem_range'_1.mp hi).2
      omega
  · intro x hx t ht
    rw [hcores] at hx
    rcases List.mem_append.mp hx with hx | hx
    · exact h.watched x hx t ht
    · rw [hfresh x hx] at ht
      cases ht
  · rcases List.mem_cons.mp hother with rfl | hother
    · exact hkeeps
    · exact (h.kept other (List.mem_cons_of_mem _ hother)).of_crews hcrews

/-- Processes are started and belong to a new generation or to the call that started them. -/
theorem grow (h : s.Allotted (st :: others)) {xs : List Generation} (hcores : s'.cores = s.cores ++ xs)
    (hleftover : st.leftover = []) (hkeeps : s'.Keeps st') (hlength : s.processes.length ≤ s'.processes.length)
    (hfresh : ∀ x ∈ xs, x.monitor.teardown? = none)
    (hnew : (xs.flatMap Generation.processes ++ st'.leftover).Perm
      (List.range' s.processes.length (s'.processes.length - s.processes.length))) : s'.Allotted (st' :: others) :=
  h.rebook hcores hkeeps hlength hfresh (by rwa [hleftover, List.nil_append])

end Allotted

/-! ### Monitors -/

theorem Allotted.quiet (h : s.Allotted stakes) (hq : s.Quiet s')
    (hwatched : ∀ x ∈ s'.cores, ∀ t, x.monitor.teardown? = some t → t.processes ⊆ x.processes) :
    s'.Allotted stakes := by
  have hcrews (s : Supervisor) : s.cores.flatMap Generation.processes =
      (s.generations.map Generation.crew).flatMap fun crew => crew.2.map (·.process) := by
    rw [Supervisor.cores, List.flatMap_map, List.flatMap_map]
    rfl
  have hbelongings : s'.belongings stakes = s.belongings stakes := by
    rw [belongings, belongings, hcrews, hcrews, hq.crews]
  refine ⟨hbelongings ▸ h.once, fun i hi => ?_, hwatched, fun st hst => ?_⟩
  · rw [hq.length_processes]
    exact h.known i (hbelongings ▸ hi)
  · exact (h.kept st hst).of_crews fun g i hi => hq.crew_eq g ▸ hi

theorem mem_cores {x : Generation} (h : x ∈ s.cores) :
    ∃ (g : Nat) (y : Generation), s.generations[g]? = some y ∧ y.core = x := by
  obtain ⟨y, hy, rfl⟩ := List.mem_map.mp h
  obtain ⟨g, hg⟩ := List.getElem?_of_mem hy
  exact ⟨g, y, hg, rfl⟩

theorem core_mem_cores {x : Generation} (h : s.generations[g]? = some x) : x.core ∈ s.cores :=
  List.mem_map_of_mem (List.mem_of_getElem? h)

theorem Allotted.stepMonitor (h : s.Allotted stakes) {timerFirst : Bool}
    (hstep : s.stepMonitor g timerFirst = some s') : s'.Allotted stakes := by
  refine h.quiet (.stepMonitor hstep) fun y hy => ?_
  obtain ⟨g', z, hz, rfl⟩ := mem_cores hy
  by_cases hg : g' = g
  · subst hg
    obtain ⟨x, m, hx, htick⟩ := exists_tick hstep
    obtain ⟨held, hbecomes⟩ := htick.becomes hx
    obtain rfl := Option.some.inj (hz.symm.trans hbecomes)
    exact htick.teardown_subset (h.watched x.core (core_mem_cores hx))
  · rw [touchesOnly_stepMonitor hstep g' hg] at hz
    exact h.watched z.core (core_mem_cores hz)

/-! ### Ends of generations -/

/-- All that a step of the end of a generation may do: it waits for its turn, takes the lock with all processes to
stop, stops one, or gives the lock back when no process is left to stop. -/
theorem stepTakedown_kinds {t : Takedown} {t' : Option Takedown} (h : s.stepTakedown g t = some (t', s')) :
    (s' = s ∧ (t' = none ∨ t' = some .claiming)) ∨
      (∃ x, s.generations[g]? = some x ∧ t' = some (.stopping (Teardown.ofMembers x.members)) ∧
        s' = s.setHeld g true) ∨
      (∃ u u', t = .stopping u ∧ u.next s = .later u' s' ∧ t' = some (.stopping u')) ∨
      (t' = none ∧ s' = s.setHeld g false) := by
  rw [stepTakedown] at h
  cases hx : s.generations[g]? with
  | none =>
      rw [hx] at h
      obtain ⟨rfl, rfl⟩ := Prod.mk.inj (Option.some.inj h)
      exact .inl ⟨rfl, .inl rfl⟩
  | some x =>
      rw [hx] at h
      cases t with
      | joining =>
          dsimp only at h
          split_ifs at h
          obtain ⟨rfl, rfl⟩ := Prod.mk.inj (Option.some.inj h)
          exact .inl ⟨rfl, .inr rfl⟩
      | claiming =>
          dsimp only at h
          split_ifs at h
          obtain ⟨rfl, rfl⟩ := Prod.mk.inj (Option.some.inj h)
          exact .inr (.inl ⟨x, rfl, rfl, rfl⟩)
      | stopping u =>
          cases hnext : u.next s with
          | wait => simp [hnext] at h
          | later u' s₁ =>
              simp only [hnext, Option.some.injEq, Prod.mk.injEq] at h
              obtain ⟨rfl, rfl⟩ := h
              exact .inr (.inr (.inl ⟨u, u', rfl, hnext, rfl⟩))
          | finished s₁ =>
              simp only [hnext, Option.some.injEq, Prod.mk.injEq] at h
              obtain ⟨rfl, rfl⟩ := h
              obtain ⟨rfl, -⟩ := Teardown.next_finished hnext
              exact .inr (.inr (.inr ⟨rfl, rfl⟩))

section Takedown

variable {t : Takedown} {t' : Option Takedown}

theorem cores_stepTakedown (h : s.stepTakedown g t = some (t', s')) : s'.cores = s.cores := by
  obtain ⟨ps, rfl⟩ | ⟨held, rfl⟩ := stepTakedown_cases h
  · rfl
  · exact cores_modifyGeneration s g fun _ => rfl

theorem aged_stepTakedown (h : s.stepTakedown g t = some (t', s')) :
    s'.now = s.now ∧ Aged s.now s.now s.processes s'.processes := by
  obtain ⟨rfl, -⟩ | ⟨x, -, -, rfl⟩ | ⟨u, u', -, hnext, -⟩ | ⟨-, rfl⟩ := stepTakedown_kinds h
  · exact ⟨rfl, .refl _ _⟩
  · exact ⟨rfl, .refl _ _⟩
  · have haged := (Teardown.quiet_of_next_later hnext).aged
    obtain ⟨ps, rfl⟩ := eq_of_next_later hnext
    exact ⟨rfl, haged⟩
  · exact ⟨rfl, .refl _ _⟩

theorem asked_stepTakedown (h : s.stepTakedown g t = some (t', s')) (hi : s'.Asked i) : s.Asked i ∨ i ∈ t.list := by
  obtain ⟨rfl, -⟩ | ⟨x, -, -, rfl⟩ | ⟨u, u', rfl, hnext, -⟩ | ⟨-, rfl⟩ := stepTakedown_kinds h
  · exact .inl hi
  · exact .inl hi
  · refine (Asked.of_next_later hnext hi).imp_right ?_
    rintro ⟨rest, hprocesses⟩
    rw [Takedown.list, hprocesses]
    exact List.mem_cons_self
  · exact .inl hi

theorem list_stepTakedown {t₁ : Takedown} (h : s.stepTakedown g t = some (some t₁, s')) (hlist : t.list ⊆ s.crew g) :
    t₁.list ⊆ s.crew g := by
  obtain ⟨-, hnone | hclaiming⟩ | ⟨x, hx, hstopping, -⟩ | ⟨u, u', rfl, hnext, hstopping⟩ | ⟨hnone, -⟩ :=
    stepTakedown_kinds h
  · cases hnone
  · obtain rfl := Option.some.inj hclaiming
    exact List.nil_subset _
  · obtain rfl := Option.some.inj hstopping
    intro i hi
    rw [crew, hx]
    exact mem_shutdownOrder.mp hi
  · obtain rfl := Option.some.inj hstopping
    exact fun i hi => hlist ((Teardown.sublist_of_next_later hnext).subset hi)
  · cases hnone

end Takedown

/-! ### What the steps of calls do to generations and processes -/

theorem shutdownOrder_perm (ms : List Member) : (Member.shutdownOrder ms).Perm (ms.map (·.process)) := by
  have hfilter := List.filter_append_perm (·.isProducer) ms
  exact hfilter.map _

namespace Effect

variable {c : Call} {c' : Option Call}

/-- No generation vanishes, only monitors change what they are, and the monitors of new ones have not begun. -/
theorem cores (he : Effect s c s' c') : ∃ xs, s'.cores = s.cores ++ xs ∧ ∀ y ∈ xs, y.monitor = .fresh := by
  have hsame {s' : Supervisor} (h : s'.cores = s.cores) :
      ∃ xs, s'.cores = s.cores ++ xs ∧ ∀ y ∈ xs, y.monitor = .fresh :=
    ⟨[], by rw [h, List.append_nil], fun _ hy => absurd hy List.not_mem_nil⟩
  cases he with
  | looks hlooks _ _ _ => exact hsame (cores_of_generations hlooks.generations)
  | refused _ => exact hsame rfl
  | released hlooks => exact hsame ((cores_cancel _ _).trans (cores_of_generations hlooks.generations))
  | unwound hspawn =>
      obtain ⟨-, hgenerations, -⟩ := spawnAll_spec hspawn
      exact hsame (cores_of_generations hgenerations)
  | @launched env id o graph report p tag ms r s₁ _ _ hspawn =>
      obtain ⟨-, hgenerations, -⟩ := spawnAll_spec hspawn
      have hkept : s₁.cores = s.cores := cores_of_generations hgenerations
      refine ⟨_, (cores_enrol s₁ _).trans (congrArg (· ++ [_]) hkept), fun y hy => ?_⟩
      obtain rfl := List.mem_singleton.mp hy
      rfl
  | unwinds hnext =>
      obtain ⟨ps, rfl⟩ := eq_of_next_later hnext
      exact hsame rfl
  | failed _ => exact hsame rfl
  | @enlisted id o g r _ => exact hsame (cores_modifyGeneration s g fun _ => rfl)
  | taken _ _ _ => exact hsame (cores_cancel _ _)
  | takenAll _ _ => exact hsame (cores_cancel _ _)
  | aborted => exact hsame rfl
  | goesOn _ _ _ hstep => exact hsame (cores_stepTakedown hstep)
  | @ended c id g t s₁ bus _ hstep _ _ =>
      have hkept : s₁.cores = s.cores := cores_stepTakedown hstep
      exact hsame hkept
  | @next id id' g g' rest t s₁ hstep =>
      have hkept : s₁.cores = s.cores := cores_stepTakedown hstep
      exact hsame ((cores_cancel _ _).trans hkept)

theorem aged (he : Effect s c s' c') : s'.now = s.now ∧
    ∃ qs ps, Aged s.now s.now s.processes qs ∧ s'.processes = qs ++ ps ∧ ∀ p ∈ ps, p.stopRequested = false := by
  have hsame {s' : Supervisor} (hnow : s'.now = s.now) (haged : Aged s.now s.now s.processes s'.processes) :
      s'.now = s.now ∧ ∃ qs ps, Aged s.now s.now s.processes qs ∧ s'.processes = qs ++ ps ∧
        ∀ p ∈ ps, p.stopRequested = false :=
    ⟨hnow, s'.processes, [], haged, (List.append_nil _).symm, by simp⟩
  cases he with
  | looks hlooks _ _ _ => exact hsame hlooks.now hlooks.aged
  | refused _ => exact hsame rfl (.refl _ _)
  | released hlooks => exact hsame hlooks.now hlooks.aged
  | unwound hspawn =>
      obtain ⟨hgrown, -, -⟩ := spawnAll_spec hspawn
      obtain ⟨-, ps, -, hps, -, hunasked, -⟩ := spawnAll_members hspawn
      exact ⟨hgrown.now, s.processes, ps, .refl _ _, hps, hunasked⟩
  | launched _ _ hspawn =>
      obtain ⟨hgrown, -, -⟩ := spawnAll_spec hspawn
      obtain ⟨-, ps, -, hps, -, hunasked, -⟩ := spawnAll_members hspawn
      exact ⟨hgrown.now, s.processes, ps, .refl _ _, hps, hunasked⟩
  | unwinds hnext =>
      have haged := (Teardown.quiet_of_next_later hnext).aged
      obtain ⟨ps, rfl⟩ := eq_of_next_later hnext
      exact hsame rfl haged
  | failed _ => exact hsame rfl (.refl _ _)
  | enlisted _ => exact hsame rfl (.refl _ _)
  | taken _ _ _ => exact hsame rfl (.refl _ _)
  | takenAll _ _ => exact hsame rfl (.refl _ _)
  | aborted => exact hsame rfl (.refl _ _)
  | goesOn _ _ _ hstep => exact hsame (aged_stepTakedown hstep).1 (aged_stepTakedown hstep).2
  | ended _ hstep _ _ => exact hsame (aged_stepTakedown hstep).1 (aged_stepTakedown hstep).2
  | next hstep => exact hsame (aged_stepTakedown hstep).1 (aged_stepTakedown hstep).2

theorem length_le (he : Effect s c s' c') : s.processes.length ≤ s'.processes.length := by
  obtain ⟨-, qs, ps, haged, hps, -⟩ := he.aged
  rw [hps, List.length_append, haged.length_eq]
  exact Nat.le_add_right _ _

theorem allotted (he : Effect s c s' c') (h : s.Allotted (c.stake :: others)) :
    s'.Allotted (Call.left c' :: others) := by
  have hkeeps : s.Keeps c.stake := h.kept _ List.mem_cons_self
  have hlength := he.length_le
  cases he with
  | looks hlooks hfree hfree' _ =>
      refine h.keep (cores_of_generations hlooks.generations) hlength ?_ (keeps_of_tended hfree'.tended)
      rw [hfree'.leftover]
      exact List.nil_sublist _
  | refused _ => exact h.keep rfl hlength (List.nil_sublist _) trivial
  | released hlooks =>
      have hcores := cores_of_generations hlooks.generations
      exact h.keep ((cores_cancel _ _).trans hcores) hlength (List.nil_sublist _) trivial
  | @unwound env id o graph segments specs ms e s' hspawn =>
      obtain ⟨-, hgenerations, -⟩ := spawnAll_spec hspawn
      obtain ⟨new, ps, rfl, hps, hnumbers, -, -⟩ := spawnAll_members hspawn
      have hcores : s'.cores = s.cores ++ [] := (cores_of_generations hgenerations).trans (List.append_nil _).symm
      have hcount : s'.processes.length - s.processes.length = ps.length := by
        rw [hps, List.length_append]
        exact Nat.add_sub_cancel_left _ _
      -- what was started is what the start has to shut down
      refine h.grow hcores rfl trivial hlength (by simp) ?_
      rw [hcount]
      exact (shutdownOrder_perm ms).trans (.of_eq hnumbers)
  | @launched env id o graph report p tag ms r s' _ _ hspawn =>
      obtain ⟨-, hgenerations, -⟩ := spawnAll_spec hspawn
      obtain ⟨new, ps, rfl, hps, hnumbers, -, -⟩ := spawnAll_members hspawn
      have hkept : s'.cores = s.cores := cores_of_generations hgenerations
      have hadded := cores_enrol s' { pipeline := id, members := ms, runtime := o.runtime, startedAt := s'.now }
      have hcores := hadded.trans (congrArg (· ++ [_]) hkept)
      have hcount : s'.processes.length - s.processes.length = ps.length := by
        rw [hps, List.length_append]
        exact Nat.add_sub_cancel_left _ _
      -- what was started belongs to the generation that is added
      refine h.grow hcores rfl trivial hlength (fun x hx => ?_) ?_
      · obtain rfl := List.mem_singleton.mp hx
        rfl
      · rw [processes_enrol, hcount, List.flatMap_singleton, Call.left, Call.stake, Stake.leftover_enlisting,
          List.append_nil]
        exact .of_eq hnumbers
  | unwinds hnext =>
      have hsub := Teardown.sublist_of_next_later hnext
      obtain ⟨ps, rfl⟩ := eq_of_next_later hnext
      exact h.keep rfl hlength hsub trivial
  | failed _ => exact h.keep rfl hlength (List.nil_sublist _) trivial
  | @enlisted id o g r _ => exact h.keep (cores_modifyGeneration s g fun _ => rfl) hlength (List.nil_sublist _) trivial
  | @taken id g c c' _ _ hcalls =>
      have hlist : ∀ r ∈ [(id, g, Takedown.joining)], r.2.2.list ⊆ s.crew r.2.1 := by simp [Takedown.list]
      obtain ⟨rfl, rfl⟩ | ⟨moved, rfl, rfl⟩ := hcalls <;>
        exact h.keep (cores_cancel _ _) hlength (List.nil_sublist _) hlist
  | @takenAll id g rest _ _ =>
      refine h.keep (cores_cancel _ _) hlength (List.nil_sublist _) fun r hr => ?_
      have hjoining : r.2.2 = .joining := by
        rcases List.mem_cons.mp hr with rfl | hr
        · rfl
        · obtain ⟨run, -, rfl⟩ := List.mem_map.mp hr
          rfl
      rw [hjoining]
      exact List.nil_subset _
  | aborted => exact h.keep rfl hlength (List.nil_sublist _) trivial
  | @goesOn c c' id g t t' runs s' hstake hstake' _ hstep =>
      rw [hstake] at h hkeeps
      rw [Call.left, hstake']
      refine h.keep (cores_stepTakedown hstep) hlength (List.nil_sublist _) fun r hr => ?_
      rcases List.mem_cons.mp hr with rfl | hr
      · exact list_stepTakedown hstep (hkeeps (id, g, t) List.mem_cons_self)
      · exact hkeeps r (List.mem_cons_of_mem _ hr)
  | @ended c id g t s₁ bus _ hstep _ _ =>
      have hkept : s₁.cores = s.cores := cores_stepTakedown hstep
      exact h.keep hkept hlength (List.nil_sublist _) trivial
  | @next id id' g g' rest t s₁ hstep =>
      have hkept : s₁.cores = s.cores := cores_stepTakedown hstep
      refine h.keep ((cores_cancel _ _).trans hkept) hlength (List.nil_sublist _) fun r hr => ?_
      exact hkeeps r (List.mem_cons_of_mem _ (by simpa [Call.stake] using hr))

theorem asked (he : Effect s c s' c') (h : s.Allotted (c.stake :: others)) (hi : s'.Asked i) :
    s.Asked i ∨ i ∈ c.stake.leftover ∨ ∃ g ∈ c.stake.doomed, i ∈ s.crew g := by
  have hkeeps : s.Keeps c.stake := h.kept _ List.mem_cons_self
  have hsame {s' : Supervisor} (hrequests : s'.requests = s.requests) (hi : s'.Asked i) :
      s.Asked i ∨ i ∈ c.stake.leftover ∨ ∃ g ∈ c.stake.doomed, i ∈ s.crew g := by
    rw [Asked, hrequests] at hi
    exact .inl hi
  have hnew {s' : Supervisor} {ps : List Subprocess} (hps : s'.processes = s.processes ++ ps)
      (hunasked : ∀ p ∈ ps, p.stopRequested = false) (hi : s'.Asked i) :
      s.Asked i ∨ i ∈ c.stake.leftover ∨ ∃ g ∈ c.stake.doomed, i ∈ s.crew g := by
    rw [Asked, requests, hps, List.map_append, List.getElem?_append] at hi
    split_ifs at hi
    · exact .inl hi
    · obtain ⟨p, hp, hasked⟩ := List.getElem?_map .. ▸ hi |> Option.map_eq_some_iff.mp
      rw [hunasked p (List.mem_of_getElem? hp)] at hasked
      cases hasked
  have hends {id : PipelineId} {g : Nat} {t : Takedown} {t' : Option Takedown} {s₁ : Supervisor}
      {runs : List (PipelineId × Nat × Takedown)} (hstake : c.stake = .ending ((id, g, t) :: runs))
      (hstep : s.stepTakedown g t = some (t', s₁)) (hi : s₁.Asked i) :
      s.Asked i ∨ i ∈ c.stake.leftover ∨ ∃ g ∈ c.stake.doomed, i ∈ s.crew g := by
    rw [hstake] at hkeeps ⊢
    refine (asked_stepTakedown hstep hi).imp_right fun hlist => .inr ⟨g, List.mem_cons_self, ?_⟩
    exact hkeeps (id, g, t) List.mem_cons_self hlist
  cases he with
  | looks hlooks _ _ _ => exact hsame hlooks.requests hi
  | refused _ => exact hsame rfl hi
  | released hlooks => exact hsame hlooks.requests hi
  | unwound hspawn =>
      obtain ⟨-, ps, -, hps, -, hunasked, -⟩ := spawnAll_members hspawn
      exact hnew hps hunasked hi
  | launched _ _ hspawn =>
      obtain ⟨-, ps, -, hps, -, hunasked, -⟩ := spawnAll_members hspawn
      exact hnew hps hunasked hi
  | @unwinds id o t t' e s' hnext =>
      refine (Asked.of_next_later hnext hi).imp_right ?_
      rintro ⟨rest, hprocesses⟩
      refine .inl ?_
      rw [Call.stake, Stake.leftover, hprocesses]
      exact List.mem_cons_self
  | failed _ => exact hsame rfl hi
  | enlisted _ => exact hsame rfl hi
  | taken _ _ _ => exact hsame rfl hi
  | takenAll _ _ => exact hsame rfl hi
  | aborted => exact hsame rfl hi
  | goesOn hstake _ _ hstep => exact hends hstake hstep hi
  | ended hstake hstep _ _ => exact hends hstake hstep hi
  | next hstep => exact hends rfl hstep hi

end Effect

end Supervisor

end Pipeworks
