import Pipeworks.Proofs.Supervisor.Abandonment
import Pipeworks.Proofs.Supervisor.FailedStarts
import Pipeworks.Proofs.Supervisor.SuccessfulStarts
import Pipeworks.Proofs.Supervisor.Visibility

/-!
Starts whose callers go away. Wherever that happens the mark of the start is given back, and at every point but one the
processes that it has started are gone at once. The point is the last one, at which the start waits to enter its
generation among the active ones: there the processes are left as they are, no call finds them any more, and nobody but
their monitor or they themselves can end them. Every other process that is alive is one of an active generation, or in
the hands of a call that is under way.
-/

namespace Pipeworks

theorem Supervisor.Effect.active_subset {s s' : Supervisor} {c : Call} {c' : Option Call} (he : Effect s c s' c')
    (hc : c.isStart = false) : s'.active ⊆ s.active := by
  cases he with
  | looks hlooks => exact hlooks.active ▸ List.Subset.refl _
  | taken => exact List.filter_sublist.subset
  | takenAll => exact List.nil_subset _
  | aborted => exact List.Subset.refl _
  | goesOn _ _ _ hstep | ended _ hstep | next hstep => exact (flags_stepTakedown hstep).2 ▸ List.Subset.refl _
  | refused | released | unwound | launched | unwinds | failed | enlisted => cases hc

namespace Thread

variable {env : Surroundings} {s s' : Supervisor} {t t' : Thread}

def unentered : Thread → List (PipelineId × Nat)
  | calling (.start id _ stage) => stage.unentered id
  | _ => []

theorem unentered_calling {c : Call} (hc : c.isStart = false) : (calling c).unentered = [] := by
  cases c with
  | start id o stage => cases hc
  | _ => rfl

/-- A generation becomes active only as the start enters it that has made it, and only a new one is about to be
entered from now on. -/
theorem Does.unentered (h : Does env s t t' s') : (∀ run ∈ s'.active, run ∈ s.active ∨ run ∈ t.unentered) ∧
    ∀ run ∈ t'.unentered, run ∈ t.unentered ∨ run.2 = s.generations.length := by
  have hstays (hactive : s'.active ⊆ s.active) (hnone : t'.unentered = []) :
      (∀ run ∈ s'.active, run ∈ s.active ∨ run ∈ t.unentered) ∧
        ∀ run ∈ t'.unentered, run ∈ t.unentered ∨ run.2 = s.generations.length :=
    ⟨fun run hrun => .inl (hactive hrun), fun run hrun => absurd (hnone ▸ hrun) List.not_mem_nil⟩
  cases h with
  | later hc hstep =>
      have habstains := Supervisor.abstains_step env (s := s) hc
      rw [hstep] at habstains
      exact hstays ((effect_of_does hstep).active_subset hc) (unentered_calling habstains.1)
  | answers hc hstep => exact hstays ((effect_of_does hstep).active_subset hc) rfl
  | joined hstep => exact hstays ((Supervisor.flags_stepTakedown hstep).2 ▸ List.Subset.refl _) rfl
  | @concludes id moved => exact hstays ((Supervisor.quiet_concludeAbort s id moved).active ▸ List.Subset.refl _) rfl
  | alive => exact hstays ((Supervisor.Quiet.anyAlive s _).active ▸ List.Subset.refl _) rfl
  | @dead id o g _ =>
      refine hstays (fun run hrun => ?_) rfl
      exact (Supervisor.Quiet.anyAlive s g).active ▸ (List.mem_filter.mp hrun).1
  | spawns hspawn =>
      have hgrown := (Supervisor.spawnAll_spec (Supervisor.spawnAll_of_ok hspawn [])).1
      exact hstays (hgrown.active ▸ List.Subset.refl _) rfl
  | breaks hspawn =>
      have hgrown := (Supervisor.spawnAll_spec (Supervisor.spawnAll_of_error hspawn [])).1
      exact hstays (hgrown.active ▸ List.Subset.refl _) rfl
  | @enrols l x _ _ =>
      refine ⟨fun run hrun => .inl hrun, fun run hrun => .inr ?_⟩
      rw [List.mem_singleton.mp hrun]
  | unwinds hnext => exact hstays ((Teardown.quiet_of_next_later hnext).active ▸ List.Subset.refl _) rfl
  | enters =>
      refine ⟨fun run hrun => ?_, fun run hrun => absurd hrun List.not_mem_nil⟩
      exact (List.mem_append.mp hrun).imp_left fun hrun => (List.mem_filter.mp hrun).1
  | _ => exact hstays (List.Subset.refl _) rfl

end Thread

namespace Threads

variable {config : Config} {τ : List Deed} {x x' y : Threads} {m : Move} {k l g : Nat} {env : Surroundings}
  {id : PipelineId} {o : StartOptions} {stage : StartStage} {t t' : Thread} {s s' : Supervisor}

/-! ### What is left adrift -/

def Deed.orphans (d : Deed) : List (PipelineId × Nat) :=
  match d.move with
  | .giveUp k => ((d.before.threads[k]?).map Thread.unentered).getD []
  | _ => []

def orphans (τ : List Deed) : List (PipelineId × Nat) := τ.flatMap Deed.orphans

theorem orphans_append_of_play (hplay : x.play m = some x') : orphans (τ ++ [⟨x, m, x'⟩]) = orphans τ := by
  rw [orphans, List.flatMap_append, List.flatMap_singleton]
  cases m with
  | giveUp k => cases hplay
  | _ => exact List.append_nil _

theorem orphans_append_of_giveUp (ht : x.threads[k]? = some (.calling (.start id o stage))) :
    orphans (τ ++ [⟨x, .giveUp k, x'⟩]) = orphans τ ++ stage.unentered id := by
  have hlast : Deed.orphans ⟨x, .giveUp k, x'⟩ = stage.unentered id := by simp [Deed.orphans, ht, Thread.unentered]
  rw [orphans, List.flatMap_append, List.flatMap_singleton, hlast, ← orphans]

theorem abandon_eq_some (h : x.abandon k = some x') : ∃ id o stage,
    x.threads[k]? = some (.calling (.start id o stage)) ∧
    x' = ⟨x.supervisor.abandonStart id stage, x.threads.set k (.answered .done)⟩ := by
  rw [abandon] at h
  split at h
  · rename_i id o stage ht
    exact ⟨id, o, stage, ht, (Option.some.inj h).symm⟩
  · cases h

/-- A generation of which nobody knows: it is not active, and no start is about to enter it. -/
structure Lost (x : Threads) (g : Nat) : Prop where
  known : g < x.supervisor.generations.length
  inactive : ∀ run ∈ x.supervisor.active, run.2 ≠ g
  unheld : ∀ t ∈ x.threads, ∀ run ∈ t.unentered, run.2 ≠ g

theorem Lost.happens (h : x.Lost g) (hhappens : x.Happens m x') : x'.Lost g where
  known := h.known.trans_le hhappens.ages.length_le
  inactive := by
    cases hhappens with
    | asks _ => exact h.inactive
    | goes ht hdoes =>
        intro run hrun
        exact (hdoes.unentered.1 run hrun).elim (h.inactive run) (h.unheld _ (List.mem_of_getElem? ht) run)
    | drifts _ hdrifts => exact fun run hrun => h.inactive run (hdrifts.quiet.active ▸ hrun)
  unheld := by
    refine hhappens.threads h.unheld ?_ ?_
    · rintro c - hnew run hrun
      have hnone : (Thread.calling c).unentered = [] := by
        unfold Call.isNew at hnew
        split at hnew <;> first | rfl | cases hnew
      exact absurd (hnone ▸ hrun) List.not_mem_nil
    · rintro t t' env ht hdoes run hrun
      rcases hdoes.unentered.2 run hrun with hrun | hrun
      · exact h.unheld t ht run hrun
      · exact hrun ▸ h.known.ne'

theorem Lost.giveUp (h : x.Lost g) (hgone : x.abandon k = some x') : x'.Lost g := by
  obtain ⟨id, o, stage, -, rfl⟩ := abandon_eq_some hgone
  refine ⟨h.known.trans_le (Supervisor.Ages.abandonStart x.supervisor id stage).length_le, fun run hrun => ?_,
    fun t ht => ?_⟩
  · exact h.inactive run (Supervisor.active_abandonStart x.supervisor id stage ▸ hrun)
  · rcases List.mem_or_eq_of_mem_set ht with ht | rfl
    · exact h.unheld t ht
    · exact fun run hrun => absurd hrun List.not_mem_nil

/-! ### The processes of a start -/

def spawned (τ : List Deed) (k : Nat) : List Nat := (doings τ k).processes.map (·.2)

theorem spawned_append_of_not {d : Deed} (hd : d.isOf k = false) : spawned (τ ++ [d]) k = spawned τ k := by
  rw [spawned, doings_append_of_not hd, spawned]

theorem spawned_append_of (ht : x.threads[k]? = some t) (ht' : x'.threads[k]? = some t') :
    spawned (τ ++ [⟨x, .proceed k env, x'⟩]) k =
      spawned τ k ++ (Doings.ofStep env x.supervisor t t' x'.supervisor).processes.map (·.2) := by
  rw [spawned, doings_append_of ht ht']
  exact List.map_append

/-- What is known, at each stage of a start, of the processes that it has started. -/
def Brood (s : Supervisor) (is : List Nat) : Thread → Prop
  | .calling (.start _ _ (.unwinding t _)) => ∀ i ∈ is, i ∈ t.processes ∨ s.Gone i
  | .calling (.start _ _ (.enlisting g _)) => is = s.crew g
  | .calling (.start _ _ _) => is = []
  | .launching _ (.spawning _ ms) => is = ms.map (·.process)
  | .launching _ _ => is = []
  | _ => True

theorem brood_calling {is : List Nat} {c : Call} (hc : c.isStart = false) : Brood s is (.calling c) := by
  cases c with
  | start id o stage => cases hc
  | _ => trivial

theorem Brood.ages {is : List Nat} (h : Brood s is t) (hages : s.Ages s')
    (hknown : ∀ run ∈ t.unentered, run.2 < s.generations.length) : Brood s' is t := by
  cases t with
  | calling c =>
      cases c with
      | start id o stage =>
          cases stage with
          | unwinding u e => exact fun i hi => (h i hi).imp_right hages.gone
          | enlisting g r => exact h.trans (hages.crew_eq (hknown (id, g) (List.mem_singleton_self _))).symm
          | _ => exact h
      | _ => trivial
  | launching l stage => cases stage <;> exact h
  | _ => trivial

theorem Brood.step (h : Brood x.supervisor (spawned τ k) t) (ht : x.threads[k]? = some t)
    (hdoes : Thread.Does env x.supervisor t t' s') (hhonest : x.supervisor.Honest) (hfits : x.supervisor.Fits t.stake)
    (hcontained : ∀ i ∈ t.stake.leftover, i < x.supervisor.processes.length) :
    Brood s' (spawned (τ ++ [⟨x, .proceed k env, ⟨s', x.threads.set k t'⟩⟩]) k) t' := by
  set d : Deed := ⟨x, .proceed k env, ⟨s', x.threads.set k t'⟩⟩
  have hspawned : spawned (τ ++ [d]) k =
      spawned τ k ++ (Doings.ofStep env x.supervisor t t' s').processes.map (·.2) :=
    spawned_append_of ht (List.getElem?_set_self (List.getElem?_eq_some_iff.mp ht).1)
  have hsame (hlength : s'.processes.length = x.supervisor.processes.length) :
      spawned (τ ++ [d]) k = spawned τ k := by
    have hnone : (Doings.ofStep env x.supervisor t t' s').processes = [] :=
      List.drop_eq_nil_of_le (by rw [List.length_zipIdx, hlength])
    rw [hspawned, hnone, List.map_nil, List.append_nil]
  cases hdoes with
  | later hc hstep =>
      have habstains := Supervisor.abstains_step env (s := x.supervisor) hc
      rw [hstep] at habstains
      exact brood_calling habstains.1
  | marks | waived | takes | fetched | compiled | numbers | forgets | records => exact (hsame rfl).trans h
  | @dead id o g _ => exact (hsame (Supervisor.Quiet.anyAlive x.supervisor g).length_processes).trans h
  | @spawns l spec specs ms m s' hspawn =>
      obtain ⟨p, -, hm, hstep⟩ :=
        Doings.ofStep_of_spawn hspawn l specs ms (.launching l (.spawning specs (ms ++ [m])))
      rw [Brood, hspawned, hstep, h, hm, List.map_append]
      rfl
  | @breaks l spec specs ms e s' hspawn =>
      have hlength : s'.processes.length = x.supervisor.processes.length := by
        rw [Supervisor.spawn] at hspawn
        split at hspawn
        · obtain ⟨-, rfl⟩ := Prod.mk.inj hspawn
          rfl
        · cases hspawn
      intro i hi
      rw [hsame hlength, h] at hi
      exact .inl (Supervisor.mem_shutdownOrder.mpr hi)
  | @enrols l z _ _ =>
      have hcrew : (x.supervisor.enrol z).crew x.supervisor.generations.length = z.members.map (·.process) := by
        rw [Supervisor.crew, Supervisor.enrol, List.getElem?_concat_length]
        rfl
      exact (hsame rfl).trans (h.trans hcrew.symm)
  | @unwinds id o u u' e s' hnext =>
      have hquiet := Teardown.quiet_of_next_later hnext
      obtain ⟨⟨front, hfront, hleft⟩, -⟩ := Teardown.next_front hhonest hfits.2 hcontained hnext
      intro i hi
      rw [hsame hquiet.length_processes] at hi
      -- a process in front is left out as it is gone, and one that is gone stays so
      rcases h i hi with hi | hgone
      · rw [hfront] at hi
        exact (List.mem_append.mp hi).symm.imp_right (hleft i)
      · exact .inr (hquiet.gone hgone)
  | _ => trivial

/-! ### Histories in which callers go away -/

structure Accounted (τ : List Deed) (x : Threads) : Prop where
  sound : x.supervisor.Sound (x.threads.map Thread.stake ++ (orphans τ).map .adrift)
  allotted : x.supervisor.Allotted (x.threads.map Thread.stake ++ (orphans τ).map .adrift)
  contained : ∀ t ∈ x.threads, ∀ i ∈ t.stake.leftover, i < x.supervisor.processes.length
  lost : ∀ run ∈ orphans τ, x.Lost run.2
  broods : ∀ k t, x.threads[k]? = some t → Brood x.supervisor (spawned τ k) t
  silent : ∀ k, x.threads.length ≤ k → deeds τ k = []

theorem exists_proceed_of_isOf (h : Deed.isOf k ⟨x, m, x'⟩ = true) : ∃ env, m = .proceed k env := by
  cases m with
  | proceed l env => exact ⟨env, by rw [of_decide_eq_true h]⟩
  | _ => cases h

namespace Accounted

theorem fits (h : Accounted τ x) (ht : x.threads[k]? = some t) : x.supervisor.Fits t.stake :=
  h.sound.fits _ (List.mem_append_left _ (List.mem_map_of_mem (List.mem_of_getElem? ht)))

/-- A start that is about to enter its generation knows it, and its pipeline is not active. -/
theorem of_unentered (h : Accounted τ x) (ht : x.threads[k]? = some t) {run : PipelineId × Nat}
    (hrun : run ∈ t.unentered) :
    x.Marks k run.1 ∧ x.supervisor.Idle run.1 ∧ x.supervisor.IsOf run.2 run.1 := by
  have hfits := h.fits ht
  cases t with
  | calling c =>
      cases c with
      | start id o stage =>
          cases stage with
          | enlisting g r =>
              obtain rfl := List.mem_singleton.mp hrun
              exact ⟨⟨_, ht, rfl⟩, hfits⟩
          | _ => exact absurd hrun List.not_mem_nil
      | _ => exact absurd hrun List.not_mem_nil
  | _ => exact absurd hrun List.not_mem_nil

theorem known (h : Accounted τ x) (ht : x.threads[k]? = some t) :
    ∀ run ∈ t.unentered, run.2 < x.supervisor.generations.length := by
  intro run hrun
  obtain ⟨-, -, y, hy, -⟩ := h.of_unentered ht hrun
  exact (List.getElem?_eq_some_iff.mp hy).1

theorem nodup_marks (h : Accounted τ x) : ((x.threads.map Thread.stake).filterMap Stake.mark?).Nodup := by
  have hmarks := h.sound.marks
  rw [List.filterMap_append] at hmarks
  exact (List.nodup_append.mp hmarks).1

theorem mem_starting_iff (h : Accounted τ x) (id : PipelineId) :
    id ∈ x.supervisor.starting ↔ ∃ k, x.Marks k id := by
  have hnone : ((orphans τ).map Stake.adrift).filterMap Stake.mark? = [] := by simp
  rw [h.sound.starting, List.filterMap_append, hnone, List.append_nil, x.mem_marks_iff]

theorem brood_of_other (h : Accounted τ x) (ht : x.threads[k]? = some t) {d : Deed} (hd : d.isOf k = false)
    (hages : x.supervisor.Ages s') : Brood s' (spawned (τ ++ [d]) k) t := by
  rw [spawned_append_of_not hd]
  exact (h.broods k t ht).ages hages (h.known ht)

theorem start : Accounted [] (ofConfig config) where
  sound := Scene.sound_ofConfig config
  allotted := ⟨List.nodup_nil, fun _ hi => absurd hi List.not_mem_nil, fun _ hx => absurd hx List.not_mem_nil,
    fun _ hst => absurd hst List.not_mem_nil⟩
  contained _ ht := absurd ht List.not_mem_nil
  lost _ hrun := absurd hrun List.not_mem_nil
  broods _ _ ht := by cases ht
  silent _ _ := rfl

theorem brood_of_isNew {c : Call} (hnew : c.isNew = true) : Brood s [] (.calling c) := by
  cases c with
  | start id o stage =>
      cases stage with
      | asked => rfl
      | _ => cases hnew
  | _ => trivial

theorem broods_move (h : Accounted τ x) (hhappens : x.Happens m x') :
    ∀ k t, x'.threads[k]? = some t → Brood x'.supervisor (spawned (τ ++ [⟨x, m, x'⟩]) k) t := by
  intro k t ht
  have hages := hhappens.ages
  cases hhappens with
  | @asks c hnew =>
      rcases lt_or_ge k x.threads.length with hlt | hge
      · rw [List.getElem?_append_left hlt] at ht
        exact h.brood_of_other ht rfl hages
      · rw [List.getElem?_append_right hge] at ht
        obtain rfl := List.mem_singleton.mp (List.mem_of_getElem? ht)
        have hnone : spawned τ k = [] := by rw [spawned, doings, h.silent k hge]; rfl
        rw [spawned_append_of_not rfl, hnone]
        exact brood_of_isNew hnew
  | @goes l env u u' s' hu hdoes =>
      by_cases hl : l = k
      · subst hl
        rw [List.getElem?_set_self (List.getElem?_eq_some_iff.mp hu).1] at ht
        obtain rfl := Option.some.inj ht
        exact (h.broods l u hu).step hu hdoes h.sound.honest (h.fits hu) (h.contained u (List.mem_of_getElem? hu))
      · rw [List.getElem?_set_ne hl] at ht
        exact h.brood_of_other ht (decide_eq_false hl) hages
  | @drifts m s' hmove hdrifts =>
      refine h.brood_of_other ht (Bool.eq_false_iff.mpr fun hof => ?_) hages
      obtain ⟨env, rfl⟩ := exists_proceed_of_isOf hof
      exact hmove k env rfl

theorem move (h : Accounted τ x) (hplay : x.play m = some x') : Accounted (τ ++ [⟨x, m, x'⟩]) x' where
  sound := by
    rw [orphans_append_of_play hplay]
    exact (happens_of_play hplay).sound _ h.sound h.contained
  allotted := by
    rw [orphans_append_of_play hplay]
    exact allotted_play _ h.allotted hplay
  contained := (happens_of_play hplay).contained h.contained
  lost run hrun := (h.lost run (orphans_append_of_play hplay ▸ hrun)).happens (happens_of_play hplay)
  broods := h.broods_move (happens_of_play hplay)
  silent k hk := by
    have hbefore : x.threads.length ≤ k := (happens_of_play hplay).length_le.trans hk
    rw [deeds_append_of_not, h.silent k hbefore]
    refine Bool.eq_false_iff.mpr fun hof => ?_
    obtain ⟨env, rfl⟩ := exists_proceed_of_isOf hof
    obtain ⟨t, -, ht, -⟩ := proceed_eq_some hplay
    exact absurd (List.getElem?_eq_some_iff.mp ht).1 (Nat.not_lt.mpr hbefore)

/-- A generation that a start was about to enter is lost when the start is given up: it is not active, and no other
start is about to enter it. -/
theorem lost_of_giveUp (h : Accounted τ x) (ht : x.threads[k]? = some (.calling (.start id o stage))) :
    ∀ run ∈ stage.unentered id,
      Lost ⟨x.supervisor.abandonStart id stage, x.threads.set k (.answered .done)⟩ run.2 := by
  rintro run hrun
  obtain ⟨hmark, hidle, hof⟩ := h.of_unentered ht hrun
  refine ⟨(h.known ht run hrun).trans_le (Supervisor.Ages.abandonStart x.supervisor id stage).length_le,
    fun other hother heq => ?_, fun u hu other hother heq => ?_⟩
  · rw [Supervisor.active_abandonStart] at hother
    have hof' := h.sound.known other.1 other.2 hother
    rw [heq] at hof'
    exact hidle other.2 (hof.unique hof' ▸ hother)
  · obtain ⟨l, hl⟩ := List.getElem?_of_mem hu
    by_cases hlk : k = l
    · subst hlk
      rw [List.getElem?_set_self (List.getElem?_eq_some_iff.mp ht).1] at hl
      obtain rfl := Option.some.inj hl
      exact absurd hother List.not_mem_nil
    -- another start that is about to enter it would have the mark of the same pipeline
    · rw [List.getElem?_set_ne hlk] at hl
      obtain ⟨hmark', -, hof'⟩ := h.of_unentered hl hother
      rw [heq] at hof'
      rw [← hof.unique hof'] at hmark'
      exact hlk (hmark.unique_of_nodup h.nodup_marks hmark')

theorem perm_giveUp (τ : List Deed) (ht : x.threads[k]? = some (.calling (.start id o stage))) :
    (Stake.nothing :: ((stage.unentered id).map .adrift ++
      ((x.threads.eraseIdx k).map Thread.stake ++ (orphans τ).map .adrift))).Perm
    ((x.threads.set k (.answered .done)).map Thread.stake ++
      (orphans (τ ++ [⟨x, .giveUp k, x'⟩])).map .adrift) := by
  have hset : ((x.threads.set k (.answered .done)).map Thread.stake).Perm
      (.nothing :: (x.threads.eraseIdx k).map Thread.stake) :=
    (List.set_perm_cons_eraseIdx (List.getElem?_eq_some_iff.mp ht).1 _).map Thread.stake
  rw [orphans_append_of_giveUp ht, List.map_append]
  refine .trans (.cons _ ?_) (hset.symm.append_right _)
  change List.Perm _ ((x.threads.eraseIdx k).map Thread.stake ++ (_ ++ _))
  rw [← List.append_assoc ((x.threads.eraseIdx k).map Thread.stake)]
  exact List.perm_append_comm

theorem giveUp (h : Accounted τ x) (hgone : x.abandon k = some x') : Accounted (τ ++ [⟨x, .giveUp k, x'⟩]) x' := by
  obtain ⟨id, o, stage, ht, rfl⟩ := abandon_eq_some hgone
  obtain ⟨hlt, hk⟩ := List.getElem?_eq_some_iff.mp ht
  have hages := Supervisor.Ages.abandonStart x.supervisor id stage
  -- the order of the stakes does not matter, so that of the start may stand first
  have hfirst : (x.threads.map Thread.stake ++ (orphans τ).map Stake.adrift).Perm
      ((Call.start id o stage).stake :: ((x.threads.eraseIdx k).map Thread.stake ++ (orphans τ).map Stake.adrift)) := by
    have hperm := ((List.getElem_cons_eraseIdx_perm hlt).symm.map Thread.stake).append_right
      ((orphans τ).map Stake.adrift)
    rwa [hk] at hperm
  constructor
  case sound => exact (Supervisor.Sound.abandonStart (h.sound.perm hfirst)).perm (perm_giveUp τ ht)
  case allotted => exact (Supervisor.Allotted.abandonStart (h.allotted.perm hfirst)).perm (perm_giveUp τ ht)
  case contained =>
    intro t ht' i hi
    rcases List.mem_or_eq_of_mem_set ht' with ht' | rfl
    · exact (h.contained t ht' i hi).trans_le hages.length_processes
    · exact absurd hi List.not_mem_nil
  case lost =>
    intro run hrun
    rw [orphans_append_of_giveUp ht] at hrun
    rcases List.mem_append.mp hrun with hrun | hrun
    · exact (h.lost run hrun).giveUp hgone
    · exact h.lost_of_giveUp ht run hrun
  case broods =>
    intro l u hu
    by_cases hl : k = l
    · subst hl
      rw [List.getElem?_set_self hlt] at hu
      obtain rfl := Option.some.inj hu
      trivial
    · rw [List.getElem?_set_ne hl] at hu
      exact h.brood_of_other hu rfl hages
  case silent =>
    intro l hl
    rw [List.length_set] at hl
    rw [deeds_append_of_not rfl]
    exact h.silent l hl

end Accounted

theorem Annals.accounted (h : Annals config τ x) : Accounted τ x := by
  induction h with
  | start => exact .start
  | move _ hplay ih => exact ih.move hplay
  | giveUp _ hgone ih => exact ih.giveUp hgone

structure Remains (τ : List Deed) (y : Threads) (k : Nat) (id : PipelineId) (stage : StartStage) : Prop where
  ended : y.threads[k]? = some (.answered .done)
  killed : stage.unentered id = [] → ∀ i ∈ spawned τ k, y.supervisor.Gone i
  adrift : ∀ run ∈ stage.unentered id, run ∈ orphans τ ∧ spawned τ k = y.supervisor.crew run.2

theorem Remains.of_other {d : Deed} (h : Remains τ x k id stage) (hx : Accounted τ x) (hd : d.isOf k = false)
    (hover : x'.threads[k]? = some (.answered .done)) (hages : x.supervisor.Ages x'.supervisor) :
    Remains (τ ++ [d]) x' k id stage where
  ended := hover
  killed hnone i hi := hages.gone (h.killed hnone i (spawned_append_of_not hd ▸ hi))
  adrift run hrun := by
    obtain ⟨horphan, hcrew⟩ := h.adrift run hrun
    refine ⟨?_, ?_⟩
    · rw [orphans, List.flatMap_append]
      exact List.mem_append_left _ horphan
    · rw [spawned_append_of_not hd, hcrew, hages.crew_eq (hx.lost run horphan).known]

/-- A start that is given up leaves its processes if they are those of a generation, and otherwise kills them. -/
theorem Remains.giveUp (hx : Accounted τ x) (ht : x.threads[k]? = some (.calling (.start id o stage)))
    (hgone : x.abandon k = some x') : Remains (τ ++ [⟨x, .giveUp k, x'⟩]) x' k id stage := by
  have horphans : orphans (τ ++ [⟨x, .giveUp k, x'⟩]) = orphans τ ++ stage.unentered id :=
    orphans_append_of_giveUp ht
  have hspawned : spawned (τ ++ [⟨x, .giveUp k, x'⟩]) k = spawned τ k := spawned_append_of_not rfl
  obtain ⟨id', o', stage', ht', rfl⟩ := abandon_eq_some hgone
  obtain ⟨rfl, rfl, rfl⟩ := Call.start.inj (Thread.calling.inj (Option.some.inj (ht.symm.trans ht')))
  have hbrood := hx.broods k _ ht
  refine ⟨List.getElem?_set_self (List.getElem?_eq_some_iff.mp ht).1, fun hnone i hi => ?_, fun run hrun => ?_⟩
  · rw [hspawned] at hi
    cases stage with
    | unwinding t e =>
        rcases hbrood i hi with hleft | hgone
        · have hlt := hx.contained _ (List.mem_of_getElem? ht) i hleft
          exact Supervisor.gone_killAll hleft hlt
        · exact (Supervisor.Ages.abandonStart x.supervisor id (.unwinding t e)).gone hgone
    | enlisting g r => cases hnone
    | _ => exact absurd (hbrood ▸ hi) List.not_mem_nil
  · rw [horphans, hspawned]
    refine ⟨List.mem_append_right _ hrun, ?_⟩
    cases stage with
    | enlisting g r =>
        obtain rfl := List.mem_singleton.mp hrun
        exact hbrood
    | _ => exact absurd hrun List.not_mem_nil

/-- A thread whose caller has gone makes no step. -/
theorem isOf_eq_false_of_over (hplay : x.play m = some x') (hover : x.threads[k]? = some (.answered .done)) :
    Deed.isOf k ⟨x, m, x'⟩ = false := by
  refine Bool.eq_false_iff.mpr fun hof => ?_
  obtain ⟨env, rfl⟩ := exists_proceed_of_isOf hof
  obtain ⟨t, t', ht, hstep, -⟩ := proceed_eq_some hplay
  obtain rfl := Option.some.inj (hover.symm.trans ht)
  cases hstep

theorem Annals.remains (h : Annals config τ y) : ∀ d ∈ τ, ∀ k, d.move = .giveUp k → ∃ τ₁ id o stage,
    Annals config τ₁ d.before ∧ d.before.abandon k = some d.after ∧
      d.before.threads[k]? = some (.calling (.start id o stage)) ∧ Remains τ y k id stage := by
  induction h with
  | start => exact fun d hd => absurd hd List.not_mem_nil
  | @move τ x x' m h hplay ih =>
      intro d hd k hmove
      rcases List.mem_append.mp hd with hd | hd
      · obtain ⟨τ₁, id, o, stage, hbefore, hgone, ht, hremains⟩ := ih d hd k hmove
        have hother := isOf_eq_false_of_over hplay hremains.ended
        have hover := threads_play hplay (fun env hm => by simp [Deed.isOf, hm] at hother) hremains.ended
        exact ⟨τ₁, id, o, stage, hbefore, hgone, ht,
          hremains.of_other h.accounted hother hover (happens_of_play hplay).ages⟩
      · obtain rfl := List.mem_singleton.mp hd
        obtain rfl : m = .giveUp k := hmove
        cases hplay
  | @giveUp τ x x' l h hgone ih =>
      intro d hd k hmove
      obtain ⟨id', o', stage', hl, hafter⟩ := abandon_eq_some hgone
      rcases List.mem_append.mp hd with hd | hd
      · obtain ⟨τ₁, id, o, stage, hbefore, hgone', ht, hremains⟩ := ih d hd k hmove
        have hne : l ≠ k := by
          rintro rfl
          cases hl.symm.trans hremains.ended
        have hover : x'.threads[k]? = some (.answered .done) := by
          rw [hafter, List.getElem?_set_ne hne]
          exact hremains.ended
        have hages : x.supervisor.Ages x'.supervisor := hafter ▸ Supervisor.Ages.abandonStart _ _ _
        exact ⟨τ₁, id, o, stage, hbefore, hgone', ht, hremains.of_other h.accounted rfl hover hages⟩
      · obtain rfl := List.mem_singleton.mp hd
        obtain rfl : l = k := Move.giveUp.inj hmove
        exact ⟨τ, id', o', stage', h, hgone, hl, Remains.giveUp h.accounted hl hgone⟩

/-! ### What becomes of a start whose caller goes away -/

/-- A process is one of an active generation, so that stops and other starts find it. -/
def IsActive (x : Threads) (i : Nat) : Prop := ∃ run ∈ x.supervisor.active, i ∈ x.supervisor.crew run.2

def InHands (x : Threads) (i : Nat) : Prop :=
  ∃ t ∈ x.threads, i ∈ t.stake.leftover ∨ ∃ g ∈ t.stake.tended, i ∈ x.supervisor.crew g

/-- What becomes of a start, and of the processes that it has started, once its caller has gone away at a stage. -/
structure Dropped (τ : List Deed) (y : Threads) (d : Deed) (k : Nat) (id : PipelineId) (stage : StartStage) : Prop where
  stood : ∃ o, d.before.threads[k]? = some (.calling (.start id o stage))
  /-- Its mark is given back, and the others keep theirs. -/
  released : d.before.Marks k id → id ∉ d.after.supervisor.starting
  spared : ∀ id', id' ∈ d.after.supervisor.starting ↔ ∃ l, l ≠ k ∧ d.before.Marks l id'
  killed : (∀ g r, stage ≠ .enlisting g r) → ∀ i ∈ spawned τ k, y.supervisor.Gone i
  /-- A start that was about to enter its generation leaves the processes as they are, and they are never active. -/
  leaked : ∀ g r, stage = .enlisting g r → spawned τ k = y.supervisor.crew g ∧
    d.after.supervisor.processes = d.before.supervisor.processes ∧ ∀ i ∈ spawned τ k, ¬y.IsActive i

/-- The marks after a start was given up are those of the others. -/
theorem Accounted.marks_giveUp (h : Accounted τ x) (hgone : x.abandon k = some x') (id' : PipelineId) :
    id' ∈ x'.supervisor.starting ↔ ∃ l, l ≠ k ∧ x.Marks l id' := by
  rw [(h.giveUp hgone).mem_starting_iff]
  obtain ⟨id, o, stage, ht, rfl⟩ := abandon_eq_some hgone
  refine exists_congr fun l => ⟨?_, ?_⟩
  · rintro ⟨t, hl, hmark⟩
    by_cases hne : k = l
    · subst hne
      rw [List.getElem?_set_self (List.getElem?_eq_some_iff.mp ht).1] at hl
      obtain rfl := Option.some.inj hl
      cases hmark
    · rw [List.getElem?_set_ne hne] at hl
      exact ⟨Ne.symm hne, t, hl, hmark⟩
  · rintro ⟨hne, t, hl, hmark⟩
    exact ⟨t, (List.getElem?_set_ne hne.symm).trans hl, hmark⟩

/-- No call finds a generation that is lost by its processes. -/
theorem Accounted.not_isActive (h : Accounted τ y) {i : Nat} (hlost : y.Lost g) (hi : i ∈ y.supervisor.crew g) :
    ¬y.IsActive i := by
  rintro ⟨run, hrun, hi'⟩
  exact hlost.inactive run hrun (h.allotted.eq_of_mem_crew hi' hi)

theorem mem_orphans {run : PipelineId × Nat} (h : run ∈ orphans τ) :
    ∃ d ∈ τ, ∃ k t, d.move = .giveUp k ∧ d.before.threads[k]? = some t ∧ run ∈ t.unentered := by
  obtain ⟨d, hd, hrun⟩ := List.mem_flatMap.mp h
  obtain ⟨x, m, x'⟩ := d
  cases m with
  | giveUp k =>
      cases ht : x.threads[k]? with
      | none => simp [Deed.orphans, ht] at hrun
      | some t =>
          simp only [Deed.orphans, ht, Option.map_some, Option.getD_some] at hrun
          exact ⟨_, hd, k, t, rfl, ht, hrun⟩
  | _ => exact absurd hrun List.not_mem_nil

/-- Wherever the caller of a start goes away, the mark is given back, and what the start has started is gone at once
and for good, unless it was waiting to enter its generation: then the processes stay as they are, and are never among
the active ones. A living process is active, in the hands of a call, or left over in this way. -/
theorem dropped_starts_leak_only_unentered (h : Annals config τ y) :
    (∀ d ∈ τ, ∀ k, d.move = .giveUp k → ∃ id stage, Dropped τ y d k id stage) ∧
    ∀ i, y.supervisor.Alive i → y.IsActive i ∨ y.InHands i ∨ ∃ d ∈ τ, ∃ k id o g r, d.move = .giveUp k ∧
      d.before.threads[k]? = some (.calling (.start id o (.enlisting g r))) ∧ i ∈ spawned τ k := by
  have haccounted := h.accounted
  constructor
  · intro d hd k hmove
    obtain ⟨τ₁, id, o, stage, hbefore, hgone, ht, hremains⟩ := h.remains d hd k hmove
    have hmarks := hbefore.accounted.marks_giveUp hgone
    refine ⟨id, stage, ⟨o, ht⟩, fun hmark hstarting => ?_, hmarks, fun hstage => ?_, ?_⟩
    · obtain ⟨l, hne, hl⟩ := (hmarks id).mp hstarting
      exact hne (hl.unique_of_nodup hbefore.accounted.nodup_marks hmark)
    · refine hremains.killed ?_
      cases stage with
      | enlisting g r => exact absurd rfl (hstage g r)
      | _ => rfl
    · rintro g r rfl
      obtain ⟨horphan, hcrew⟩ := hremains.adrift (id, g) (List.mem_singleton_self _)
      refine ⟨hcrew, ?_, fun i hi => ?_⟩
      · obtain ⟨id', o', stage', ht', hafter⟩ := abandon_eq_some hgone
        obtain ⟨rfl, rfl, rfl⟩ := Call.start.inj (Thread.calling.inj (Option.some.inj (ht.symm.trans ht')))
        rw [hafter]
        rfl
      · exact haccounted.not_isActive (haccounted.lost _ horphan) (hcrew ▸ hi)
  · intro i halive
    have hstake {st : Stake} (hst : st ∈ y.threads.map Thread.stake ++ (orphans τ).map .adrift) :
        (∃ t ∈ y.threads, t.stake = st) ∨ ∃ run ∈ orphans τ, .adrift run = st :=
      (List.mem_append.mp hst).imp List.mem_map.mp List.mem_map.mp
    -- a living process is one of a generation or left over in the hands of a call, and a living generation has a holder
    rcases haccounted.sound.owned i halive with ⟨g, hi⟩ | ⟨st, hst, hi⟩
    · rcases haccounted.sound.tended g ⟨i, hi, halive⟩ with ⟨id, hactive⟩ | ⟨st, hst, hg⟩
      · exact .inl ⟨(id, g), hactive, hi⟩
      · rcases hstake hst with ⟨t, ht, rfl⟩ | ⟨run, hrun, rfl⟩
        · exact .inr (.inl ⟨t, ht, .inr ⟨g, hg, hi⟩⟩)
        · obtain rfl := List.mem_singleton.mp hg
          obtain ⟨d, hd, k, t, hmove, ht, hunentered⟩ := mem_orphans hrun
          obtain ⟨-, id, o, stage, -, -, ht', hremains⟩ := h.remains d hd k hmove
          obtain rfl := Option.some.inj (ht.symm.trans ht')
          have hcrew := (hremains.adrift run hunentered).2
          cases stage with
          | enlisting g r => exact .inr (.inr ⟨d, hd, k, id, o, g, r, hmove, ht, hcrew ▸ hi⟩)
          | _ => exact absurd hunentered List.not_mem_nil
    · rcases hstake hst with ⟨t, ht, rfl⟩ | ⟨run, -, rfl⟩
      · exact .inr (.inl ⟨t, ht, .inl hi⟩)
      · exact absurd hi List.not_mem_nil

/-! ### Two starts that are given up -/

def turn (x : Threads) : Move → Option Threads
  | .giveUp k => x.abandon k
  | m => x.play m

def chronicle (x : Threads) : List Move → List Deed
  | [] => []
  | m :: ms =>
    match x.turn m with
    | some x' => ⟨x, m, x'⟩ :: chronicle x' ms
    | none => []

theorem Annals.turn (h : Annals config τ x) (hturn : x.turn m = some x') : Annals config (τ ++ [⟨x, m, x'⟩]) x' := by
  cases m with
  | giveUp k => exact h.giveUp hturn
  | _ => exact h.move hturn

theorem Annals.turns (h : Annals config τ x) (ms : List Move) (hturns : ms.foldlM Threads.turn x = some y) :
    Annals config (τ ++ x.chronicle ms) y := by
  induction ms generalizing τ x with
  | nil =>
      obtain rfl := Option.some.inj hturns
      rwa [chronicle, List.append_nil]
  | cons m ms ih =>
      rw [List.foldlM_cons] at hturns
      obtain ⟨z, hz, hrest⟩ := Option.bind_eq_some_iff.mp hturns
      rw [chronicle, hz]
      have htail := ih (h.turn hz) hrest
      rwa [List.append_assoc, List.singleton_append] at htail

/-- A start that has started one of its two processes and cannot start the other one is given up, and then one that is
about to enter its generation. -/
def impatient : List Move :=
  List.flatten [[.ask (.startOf 1 ⟨none, none⟩)], List.replicate 9 (.proceed 0 balky),
    [.giveUp 0, .ask (.startOf 2 ⟨none, none⟩)], List.replicate 10 (.proceed 1 (keeping (some paired))), [.giveUp 1]]

/-- The process of the first start is killed, and those of the second one live on. -/
theorem impatient_leaks_only_unentered : ∃ τ y, Annals {} τ y ∧ spawned τ 0 = [0] ∧ y.supervisor.Gone 0 ∧
    spawned τ 1 = [1, 2] ∧ y.supervisor.Alive 1 ∧ y.supervisor.Alive 2 ∧ ∀ i ∈ [1, 2], ¬y.IsActive i := by
  let τ := (ofConfig {}).chronicle impatient
  obtain ⟨y, d, d', t, e, g, r, hy, hd, hmove, ht, hd', hmove', ht', hspawned, hspawned', hfirst, hsecond⟩ :
      ∃ y d d' t e g r, impatient.foldlM turn (ofConfig {}) = some y ∧
        τ[10]? = some d ∧ d.move = .giveUp 0 ∧
        d.before.threads[0]? = some (.calling (.start 1 ⟨none, none⟩ (.unwinding t e))) ∧
        τ[22]? = some d' ∧ d'.move = .giveUp 1 ∧
        d'.before.threads[1]? = some (.calling (.start 2 ⟨none, none⟩ (.enlisting g r))) ∧
        spawned τ 0 = [0] ∧ spawned τ 1 = [1, 2] ∧ y.supervisor.Alive 1 ∧ y.supervisor.Alive 2 :=
    ⟨_, _, _, _, _, _, _, rfl, rfl, rfl, rfl, rfl, rfl, rfl, rfl, rfl, ⟨_, rfl, rfl⟩, ⟨_, rfl, rfl⟩⟩
  have h : Annals {} τ y := Annals.start.turns impatient hy
  have hdropped := (dropped_starts_leak_only_unentered h).1
  obtain ⟨id, stage, hkilled⟩ := hdropped d (List.mem_of_getElem? hd) 0 hmove
  obtain ⟨id', stage', hleaked⟩ := hdropped d' (List.mem_of_getElem? hd') 1 hmove'
  obtain ⟨o, hstood⟩ := hkilled.stood
  obtain ⟨o', hstood'⟩ := hleaked.stood
  obtain ⟨-, -, rfl⟩ := Call.start.inj (Thread.calling.inj (Option.some.inj (ht.symm.trans hstood)))
  obtain ⟨-, -, rfl⟩ := Call.start.inj (Thread.calling.inj (Option.some.inj (ht'.symm.trans hstood')))
  have hgone := hkilled.killed (by rintro _ _ ⟨⟩)
  obtain ⟨-, -, hinactive⟩ := hleaked.leaked g r rfl
  rw [hspawned] at hgone
  rw [hspawned'] at hinactive
  exact ⟨τ, y, h, hspawned, hgone 0 (List.mem_singleton_self 0), hspawned', hfirst, hsecond, hinactive⟩

/-- A worker of pipeline 1 has died, and its monitor shuts down the other one. A start of pipeline 2 has started its
processes and waits for the active pipelines, which a second start of pipeline 1 holds as it waits for the monitor. Then
the caller of the start of pipeline 2 goes away. -/
def crossing : List Move :=
  List.flatten [[.ask (.startOf 1 ⟨none, none⟩)], List.replicate 12 (.proceed 0 (keeping (some paired))),
    [.watch 0 false, .signal 0 Signal.kill, .pass 10000000000, .watch 0 false, .watch 0 false,
      .ask (.startOf 2 ⟨none, none⟩)], List.replicate 3 (.proceed 1 (keeping (some paired))),
    [.ask (.startOf 1 ⟨none, none⟩)], List.replicate 2 (.proceed 2 (keeping (some paired))),
    List.replicate 7 (.proceed 1 (keeping (some paired))), [.giveUp 1]]

def aftermath : List Move :=
  List.flatten [List.replicate 5 (.watch 0 false), [.proceed 2 (keeping (some paired)), .ask (.stopOf 2),
    .proceed 3 (keeping (some paired)), .ask (.startOf 2 ⟨none, none⟩)],
    List.replicate 12 (.proceed 4 (keeping (some paired)))]

/-- The start of pipeline 2 has to wait when its caller goes away. Its mark is given back, but its processes live on,
and no active generation has them: a later stop says that the pipeline is not running, and a later start starts
processes a second time. -/
theorem crossing_leaks : ∃ τ d y r, Annals {} τ y ∧ d ∈ τ ∧ d.move = .giveUp 1 ∧
    d.before.proceed 1 (keeping (some paired)) = none ∧ d.after.supervisor.starting = [1] ∧ spawned τ 1 = [2, 3] ∧
    (∀ i ∈ [2, 3], y.supervisor.Alive i ∧ ¬y.IsActive i) ∧
    y.threads[3]? = some (.answered (.control ⟨2, .stopped, "Pipeline is not running"⟩)) ∧
    y.threads[4]? = some (.answered (.started (.ok r))) ∧ r.processes = [4, 5] := by
  let τ := (ofConfig {}).chronicle (crossing ++ aftermath)
  obtain ⟨y, d, r, hy, hd, hmove, hwaits, hstarting, hspawned, hactive, hcrew, hfirst, hsecond, hstop, hstart, hr⟩ :
      ∃ y d r, (crossing ++ aftermath).foldlM turn (ofConfig {}) = some y ∧ τ[32]? = some d ∧ d.move = .giveUp 1 ∧
        d.before.proceed 1 (keeping (some paired)) = none ∧ d.after.supervisor.starting = [1] ∧
        spawned τ 1 = [2, 3] ∧ y.supervisor.active = [(2, 2)] ∧ y.supervisor.crew 2 = [4, 5] ∧
        y.supervisor.Alive 2 ∧ y.supervisor.Alive 3 ∧
        y.threads[3]? = some (.answered (.control ⟨2, .stopped, "Pipeline is not running"⟩)) ∧
        y.threads[4]? = some (.answered (.started (.ok r))) ∧ r.processes = [4, 5] :=
    ⟨_, _, _, rfl, rfl, rfl, rfl, rfl, rfl, rfl, rfl, ⟨_, rfl, rfl⟩, ⟨_, rfl, rfl⟩, rfl, rfl, rfl⟩
  have hinactive (i : Nat) (hi : i ∈ [2, 3]) : ¬y.IsActive i := by
    rintro ⟨run, hrun, hi'⟩
    rw [hactive] at hrun
    obtain rfl := List.mem_singleton.mp hrun
    rw [hcrew] at hi'
    exact (by decide : ∀ i ∈ [2, 3], i ∉ [4, 5]) i hi hi'
  refine ⟨τ, d, y, r, Annals.start.turns _ hy, List.mem_of_getElem? hd, hmove, hwaits, hstarting, hspawned,
    fun i hi => ?_, hstop, hstart, hr⟩
  refine ⟨?_, hinactive i hi⟩
  rcases List.mem_cons.mp hi with rfl | hi
  · exact hfirst
  · exact List.mem_singleton.mp hi ▸ hsecond

end Threads

end Pipeworks
