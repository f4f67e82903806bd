import Pipeworks.Proofs.Supervisor.Isolation
import Pipeworks.Proofs.Supervisor.Places
import Pipeworks.Proofs.Supervisor.Holdings

/-!
Generations that stand. A generation stands from the step in which a start makes it to the step in which a stop, an
abort or a shutdown takes it out of the active ones, or a later start drops it. As long as it stands, nobody but its
monitor changes the stage of the monitor or asks its processes to stop, its processes only age, and no other start
makes a new record for its pipeline: whatever else happens, its record makes transitions only.
-/

namespace Pipeworks

namespace Supervisor

variable {s s' : Supervisor} {stakes others : List Stake} {id : PipelineId} {g i : Nat} {c : Call} {c' : Option Call}

theorem placed_nothing_cons : s.Placed (.nothing :: others) ↔ s.Placed others := by
  constructor <;> exact fun h => ⟨h.once, h.known, h.spared_iff⟩

theorem allotted_nothing_cons : s.Allotted (.nothing :: others) ↔ s.Allotted others := by
  constructor
  · exact fun h => ⟨h.once, h.known, h.watched, fun st hst => h.kept st (List.mem_cons_of_mem _ hst)⟩
  · refine fun h => ⟨h.once, h.known, h.watched, fun st hst => ?_⟩
    rcases List.mem_cons.mp hst with rfl | hst
    · trivial
    · exact h.kept st hst

/-- Nothing but its number tells a generation from others that have the same process. -/
theorem Allotted.eq_of_mem_crew (h : s.Allotted stakes) {g' : Nat} (hi : i ∈ s.crew g) (hi' : i ∈ s.crew g') :
    g = g' := by
  have hcore {g : Nat} (hi : i ∈ s.crew g) : ∃ x, s.cores[g]? = some x ∧ i ∈ x.processes := by
    rw [crew] at hi
    cases hx : s.generations[g]? with
    | none =>
        rw [hx] at hi
        exact absurd hi List.not_mem_nil
    | some x =>
        rw [hx] at hi
        exact ⟨x.core, getElem?_cores hx, hi⟩
  obtain ⟨x, hx, hmem⟩ := hcore hi
  obtain ⟨x', hx', hmem'⟩ := hcore hi'
  have hdisjoint := (List.nodup_flatMap.mp (List.nodup_append.mp h.once).1).2
  rw [List.pairwise_iff_getElem] at hdisjoint
  obtain ⟨hlt, rfl⟩ := List.getElem?_eq_some_iff.mp hx
  obtain ⟨hlt', rfl⟩ := List.getElem?_eq_some_iff.mp hx'
  rcases Nat.lt_trichotomy g g' with hless | heq | hless
  · exact absurd hmem' (hdisjoint g g' hlt hlt' hless hmem)
  · exact heq
  · exact absurd hmem (hdisjoint g' g hlt' hlt hless hmem')

theorem Allotted.notMem_leftover (h : s.Allotted stakes) (hi : i ∈ s.crew g) {st : Stake} (hst : st ∈ stakes) :
    i ∉ st.leftover := by
  intro hleft
  have hcore : i ∈ s.cores.flatMap Generation.processes := by
    rw [crew] at hi
    cases hx : s.generations[g]? with
    | none =>
        rw [hx] at hi
        exact absurd hi List.not_mem_nil
    | some x =>
        rw [hx] at hi
        exact List.mem_flatMap.mpr ⟨x.core, core_mem_cores hx, hi⟩
  exact (List.nodup_append.mp h.once).2.2 i hcore i (List.mem_flatMap.mpr ⟨st, hst, hleft⟩) rfl

theorem Allotted.lt_length (h : s.Allotted stakes) (hi : i ∈ s.crew g) : i < s.processes.length := by
  rw [crew] at hi
  cases hx : s.generations[g]? with
  | none =>
      rw [hx] at hi
      exact absurd hi List.not_mem_nil
  | some x =>
      rw [hx] at hi
      exact h.known i (List.mem_append_left _ (List.mem_flatMap.mpr ⟨x.core, core_mem_cores hx, hi⟩))

/-! ### Records -/

theorem registry_renewed (s : Supervisor) (id id' : PipelineId) (segments : Nat) :
    (s.renewed id segments).registry.get? id' =
      if id' = id then some (.initial id segments) else s.registry.get? id' := by
  change ((s.registry.reset id).init id segments).get? id' = _
  rw [Registry.get?_init, Registry.get?_reset, if_pos rfl, Option.getD_none, Registry.get?_reset]
  split_ifs <;> rfl

theorem record_refl {r : Registry} (h : r.get? id = s.registry.get? id) :
    ∃ ts, r.get? id = (s.registry.get? id).map (·.after ts) := by
  refine ⟨[], ?_⟩
  rw [h]
  cases s.registry.get? id <;> rfl

theorem record_turns {r : Registry} {id' : PipelineId} {ts : List Transition} (h : s.registry.Turns id' ts r) :
    ∃ ts, r.get? id = (s.registry.get? id).map (·.after ts) := by
  by_cases hid : id = id'
  · exact ⟨ts, hid ▸ h.own⟩
  · exact record_refl (h.others id hid)

theorem record_stepMonitor {timerFirst : Bool} (h : s.stepMonitor g timerFirst = some s') (id : PipelineId) :
    ∃ ts, s'.registry.get? id = (s.registry.get? id).map (·.after ts) := by
  obtain ⟨x, m, hx, -⟩ := exists_tick h
  rcases turns_stepMonitor hx h with hsame | ⟨ts, -, hturns⟩
  · exact record_refl (by rw [hsame])
  · exact record_turns hturns

/-- Calls by whose next step a run may fail or be aborted: a start that could not start all its processes, an abort, and
a stop or a shutdown that is ending a generation. -/
inductive EndsBy : Call → PipelineId → Prop where
  | start {id : PipelineId} {o : StartOptions} {t : Teardown} {e : Error} : EndsBy (.start id o (.unwinding t e)) id
  | abort {id : PipelineId} : EndsBy (.abort id .asked) id
  | farewell {c : Call} {id : PipelineId} {g : Nat} {t : Takedown} {runs : List (PipelineId × Nat × Takedown)}
      {message : String} : c.stake = .ending ((id, g, t) :: runs) → c.farewell? = some message → EndsBy c id

theorem Effect.turns (he : Effect s c s' c') :
    s'.registry = s.registry ∨
      (∃ id n, c.stake = .cleared id ∧ s'.registry.get? id = some (.initial id n) ∧
        ∀ id', id' ≠ id → s'.registry.get? id' = s.registry.get? id') ∨
      ∃ id t, EndsBy c id ∧ t.ends = true ∧ t ≠ .countSegment ∧ s.registry.Turns id [t] s'.registry := by
  have hspawned {env : Surroundings} {id : PipelineId} {segments : Nat} {specs : List WorkerSpec} {ms : List Member}
      {e : Option Error} {s₁ : Supervisor} (hspawn : spawnAll env specs [] (s.renewed id segments) = (e, ms, s₁)) :
      s₁.registry.get? id = some (.initial id segments) ∧
        ∀ id', id' ≠ id → s₁.registry.get? id' = s.registry.get? id' := by
    rw [registry_spawnAll hspawn]
    exact ⟨by rw [registry_renewed, if_pos rfl], fun id' hid => by rw [registry_renewed, if_neg hid]⟩
  cases he with
  | looks hlooks _ _ _ => exact .inl hlooks.registry
  | refused _ => exact .inl rfl
  | released hlooks => exact .inl hlooks.registry
  | unwound hspawn => exact .inr (.inl ⟨_, _, rfl, hspawned hspawn⟩)
  | launched _ _ hspawn =>
      have hrecords := hspawned hspawn
      exact .inr (.inl ⟨_, _, rfl, hrecords⟩)
  | unwinds hnext =>
      obtain ⟨ps, rfl⟩ := eq_of_next_later hnext
      exact .inl rfl
  | failed _ => exact .inr (.inr ⟨_, _, .start, rfl, by simp, .call (.fail _) s.registry _⟩)
  | enlisted _ => exact .inl rfl
  | taken _ _ _ => exact .inl rfl
  | takenAll _ _ => exact .inl rfl
  | aborted => exact .inr (.inr ⟨_, _, .abort, rfl, by simp, .call (.abort _) s.registry _⟩)
  | goesOn _ _ _ hstep => exact .inl (registry_stepTakedown hstep)
  | @ended c id' g t s₁ bus hstake hstep hmessage hnone =>
      have hkept := registry_stepTakedown hstep
      cases hfarewell : c.farewell? with
      | none => exact .inl ((hnone hfarewell).trans hkept)
      | some message =>
          have hturn : s.registry.Turns id' [.abort message] bus.registry := by
            rw [hmessage message hfarewell, hkept]
            exact .call (.abort message) s.registry id'
          exact .inr (.inr ⟨id', _, .farewell hstake hfarewell, rfl, by simp, hturn⟩)
  | @next id' _ g _ _ t s₁ hstep =>
      have hkept := registry_stepTakedown hstep
      have hturn : s.registry.Turns id' [.abort "Supervisor shut down"]
          (s₁.registry.abort id' "Supervisor shut down").2 := by
        rw [hkept]
        exact .call (.abort "Supervisor shut down") s.registry id'
      exact .inr (.inr ⟨id', _, .farewell rfl rfl, rfl, by simp, hturn⟩)

/-- A step of a call makes transitions of a run, unless it is the one in which a start makes a new record for it. -/
theorem Effect.record (he : Effect s c s' c') (id : PipelineId) :
    (∃ ts, s'.registry.get? id = (s.registry.get? id).map (·.after ts)) ∨
      c.stake = .cleared id ∧ ∃ n, s'.registry.get? id = some (.initial id n) := by
  rcases he.turns with hsame | ⟨id', n, hcleared, hnew, hothers⟩ | ⟨id', t, -, -, -, hturns⟩
  · exact .inl (record_refl (by rw [hsame]))
  · by_cases hid : id = id'
    · subst hid
      exact .inr ⟨hcleared, n, hnew⟩
    · exact .inl (record_refl (hothers id hid))
  · exact .inl (record_turns hturns)

/-! ### New generations -/

/-- A generation that was just made: its monitor has not begun, nobody asked its processes to stop, and its pipeline has
a new record with a segment for each worker. -/
structure SetsOut (s : Supervisor) (g : Nat) (x : Generation) : Prop where
  found : s.cores[g]? = some x
  fresh : x.monitor = .fresh
  unasked : ∀ i ∈ x.processes, ¬s.Asked i
  record : s.registry.get? x.pipeline = some (.initial x.pipeline x.workers.length)
  manned : 0 < x.workers.length

theorem countP_workers_specs (config : Config) (id : PipelineId) (p : Plan) (inputs : List Endpoint)
    (producer : Option ProducerOptions) :
    (specs config id p inputs producer).countP (fun spec => !spec.isProducer) = p.clusters.length := by
  have hclusters : ((p.clusters.map (WorkerSpec.ofCluster id)).map (configured config)).countP
      (fun spec => !spec.isProducer) = p.clusters.length := by
    rw [List.map_map, List.countP_map]
    exact List.countP_eq_length.mpr fun _ _ => rfl
  cases producer with
  | none =>
      rw [specs]
      simpa using hclusters
  | some o =>
      have hproducers : ((inputs.map (producerSpec id p o)).map (configured config)).countP
          (fun spec => !spec.isProducer) = 0 := by
        rw [List.map_map, List.countP_map]
        exact List.countP_eq_zero.mpr fun _ _ => by
          simp [producerSpec, configured, WorkerSpec.ofProducer, WorkerSpec.isProducer]
      rw [specs, List.map_append, List.countP_append, hclusters, hproducers]
      rfl

theorem length_workers_launched {env : Surroundings} {o : StartOptions} {graph : Graph} {p : Plan} {ms : List Member}
    (hspawn : spawnAll env (specs s.config id p graph.inputs o.producer) [] (s.renewed id p.clusters.length) =
      (none, ms, s')) : (ms.filter fun m => !m.isProducer).length = p.clusters.length := by
  obtain ⟨new, ps, rfl, -, -, -, hroles⟩ := spawnAll_members hspawn
  have hcount {α : Type} (xs : List α) (q : α → Bool) : xs.countP (fun a => !q a) = (xs.map q).countP (!·) := by
    rw [List.countP_map]
    rfl
  rw [← List.countP_eq_length_filter, hcount, hroles rfl, ← hcount]
  exact countP_workers_specs _ _ _ _ _

/-- A plan has a cluster, since its graph has an input. -/
theorem length_clusters_pos {graph : Graph} {p : Plan} (h : Plan.compile graph = .ok p) : 0 < p.clusters.length := by
  rw [Plan.compile] at h
  split_ifs at h with hempty
  obtain rfl := Except.ok.inj h
  rw [List.length_mapIdx, Plan.brokers]
  obtain ⟨input, inputs, hinputs⟩ := List.exists_cons_of_ne_nil fun hnil => hempty (List.isEmpty_iff.mpr hnil)
  rw [hinputs, List.map_cons, List.eraseDups_cons]
  exact Nat.succ_pos _

theorem setsOut_launched {env : Surroundings} {o : StartOptions} {graph : Graph} {p : Plan} {tag : String}
    {ms : List Member} {x : Generation} (hplan : Plan.compile graph = .ok p)
    (hspawn : spawnAll env (specs s.config id (p.assignGroups s.config.groupPrefix tag) graph.inputs o.producer) []
      (s.renewed id (p.assignGroups s.config.groupPrefix tag).clusters.length) = (none, ms, s'))
    {y : Generation} (hy : y = { pipeline := id, members := ms, runtime := o.runtime, startedAt := s'.now })
    (hx : (s'.enrol y).cores[s'.generations.length]? = some x) :
    x.pipeline = id ∧ (s'.enrol y).SetsOut s'.generations.length x := by
  subst hy
  have hworkers := length_workers_launched hspawn
  have hmanned := length_clusters_pos hplan
  obtain ⟨new, ps, rfl, hps, hnumbers, hunasked, -⟩ := spawnAll_members hspawn
  have hlast := hx
  have hlength : s'.generations.length = s'.cores.length := (List.length_map _).symm
  rw [cores_enrol, hlength, List.getElem?_concat_length] at hlast
  obtain rfl := Option.some.inj hlast
  refine ⟨rfl, hx, rfl, fun i hi hasked => ?_, ?_, ?_⟩
  · -- the process was started in this step
    change i ∈ ms.map (·.process) at hi
    rw [hnumbers] at hi
    have hge := (List.mem_range'_1.mp hi).1
    change (s'.processes.map (·.stopRequested))[i]? = some true at hasked
    rw [hps, List.map_append, List.getElem?_append_right (by rwa [List.length_map]), List.getElem?_map] at hasked
    obtain ⟨p, hp, htrue⟩ := Option.map_eq_some_iff.mp hasked
    rw [hunasked p (List.mem_of_getElem? hp)] at htrue
    cases htrue
  · change s'.registry.get? id = _
    rw [registry_spawnAll hspawn, registry_renewed, if_pos rfl, ← hworkers, Generation.workers, List.length_map]
    rfl
  · rw [Generation.workers, List.length_map]
    change 0 < (ms.filter fun m => !m.isProducer).length
    rw [hworkers, Plan.assignGroups, List.length_map]
    exact hmanned

/-- A generation is active after a step of a call if it was active before, if the call was about to enter it, or if the
call has just made it. -/
theorem Effect.stood (he : Effect s c s' c') {x : Generation} (hof : s'.cores[g]? = some x)
    (h : (id, g) ∈ s'.active ∨ Call.left c' = .enlisting id g) :
    (id, g) ∈ s.active ∨ c.stake = .enlisting id g ∨
      g = s.generations.length ∧ c.stake = .cleared id ∧ x.pipeline = id ∧ s'.SetsOut g x := by
  have hactive {s' : Supervisor} {c' : Option Call} (hsub : s'.active ⊆ s.active)
      (hleft : Call.left c' ≠ .enlisting id g) (h : (id, g) ∈ s'.active ∨ Call.left c' = .enlisting id g) :
      (id, g) ∈ s.active ∨ c.stake = .enlisting id g ∨
        g = s.generations.length ∧ c.stake = .cleared id ∧ x.pipeline = id ∧ s'.SetsOut g x :=
    .inl (hsub (h.resolve_right hleft))
  -- only the step that enters a generation makes one active, and only a launch makes one
  cases he with
  | looks hlooks _ hfree' _ =>
      refine hactive (hlooks.active ▸ List.Subset.refl _) (fun heq => ?_) h
      rw [heq] at hfree'
      exact hfree'
  | refused _ => exact hactive (List.Subset.refl _) (fun heq => by cases heq) h
  | released hlooks =>
      refine hactive (fun run hrun => ?_) (fun heq => by cases heq) h
      exact hlooks.active ▸ List.mem_of_mem_filter hrun
  | unwound hspawn =>
      obtain ⟨hgrown, -, -⟩ := spawnAll_spec hspawn
      exact hactive (fun run hrun => hgrown.active ▸ hrun) (fun heq => by cases heq) h
  | @launched env id' o graph report p tag ms r s₁ hvalid hplan hspawn =>
      obtain ⟨hgrown, hgenerations, -⟩ := spawnAll_spec hspawn
      rcases h with h | h
      · exact .inl (hgrown.active ▸ h)
      · have hkept : s₁.generations = s.generations := hgenerations
        obtain ⟨rfl, rfl⟩ := Stake.enlisting.inj h
        exact .inr (.inr ⟨congrArg List.length hkept, rfl, setsOut_launched hplan hspawn rfl hof⟩)
  | unwinds hnext =>
      obtain ⟨ps, rfl⟩ := eq_of_next_later hnext
      exact hactive (List.Subset.refl _) (fun heq => by cases heq) h
  | failed _ => exact hactive (List.Subset.refl _) (fun heq => by cases heq) h
  | @enlisted id' o g' r _ =>
      rcases h with h | h
      · rcases List.mem_append.mp h with h | h
        · exact .inl (List.mem_of_mem_filter h)
        · obtain ⟨rfl, rfl⟩ := Prod.mk.inj (List.mem_singleton.mp h)
          exact .inr (.inl rfl)
      · cases h
  | taken _ _ hcalls =>
      refine hactive (List.filter_subset_self _) (fun heq => ?_) h
      obtain ⟨-, rfl⟩ | ⟨moved, -, rfl⟩ := hcalls <;> cases heq
  | takenAll _ _ => exact hactive (List.nil_subset _) (fun heq => by cases heq) h
  | aborted => exact hactive (List.Subset.refl _) (fun heq => by cases heq) h
  | goesOn _ hstake' _ hstep =>
      refine hactive ((flags_stepTakedown hstep).2 ▸ List.Subset.refl _) (fun heq => ?_) h
      rw [Call.left, hstake'] at heq
      cases heq
  | ended _ hstep _ _ =>
      refine hactive (fun run hrun => ?_) (fun heq => by cases heq) h
      exact (flags_stepTakedown hstep).2 ▸ hrun
  | next hstep =>
      refine hactive (fun run hrun => ?_) (fun heq => by cases heq) h
      exact (flags_stepTakedown hstep).2 ▸ hrun

/-! ### What others leave of a generation -/

structure Endures (s s' : Supervisor) (id : PipelineId) (g : Nat) : Prop where
  core : s'.cores[g]? = s.cores[g]?
  record : ∃ ts, s'.registry.get? id = (s.registry.get? id).map (·.after ts)
  alive : ∀ i ∈ s.crew g, s'.Alive i → s.Alive i
  gone : ∀ i, s.Gone i → s'.Gone i
  asked : ∀ i ∈ s.crew g, s'.Asked i → s.Asked i

/-- A generation that is active, or that is about to be entered by another call, is not one that a call is to end. -/
theorem Placed.notMem_doomed (h : s.Placed (c.stake :: others))
    (hstood : (id, g) ∈ s.active ∨ c.stake = .enlisting id g ∨ .enlisting id g ∈ others) : g ∉ c.stake.doomed := by
  have hsub : c.stake.doomed ⊆ c.stake.tended := by
    cases c.stake with
    | ending runs => exact List.Subset.refl _
    | _ => exact List.nil_subset _
  have honce := h.once
  rw [tendedBy, List.flatMap_cons] at honce
  obtain ⟨-, hstakes, hdisjoint⟩ := List.nodup_append.mp honce
  intro hg
  rcases hstood with hactive | hstake | hother
  · exact hdisjoint g (List.mem_map_of_mem hactive) g (List.mem_append_left _ (hsub hg)) rfl
  · rw [hstake] at hg
    cases hg
  · have hg' : g ∈ others.flatMap Stake.tended := List.mem_flatMap.mpr ⟨_, hother, List.mem_cons_self⟩
    exact (List.nodup_append.mp hstakes).2.2 g (hsub hg) g hg' rfl

/-- A call whose pipeline is idle has not to do with a generation that is active, or that is about to be entered. -/
theorem Sound.not_idle (hsound : s.Sound (c.stake :: others)) (hmark : c.stake.mark? = some id)
    (hidle : s.Fits c.stake → s.Idle id) (hne : ∀ g, c.stake ≠ .enlisting id g) :
    ¬((id, g) ∈ s.active ∨ c.stake = .enlisting id g ∨ .enlisting id g ∈ others) := by
  rintro (hactive | hstake | hother)
  · exact hidle (hsound.fits _ List.mem_cons_self) g hactive
  · exact hne g hstake
  · exact hsound.ne_of_mark hmark hother rfl rfl

/-- A step of a call leaves alone the generations that others look after, or that the call is about to enter. -/
theorem Effect.endures (he : Effect s c s' c') (hsound : s.Sound (c.stake :: others))
    (hplaced : s.Placed (c.stake :: others)) (hallotted : s.Allotted (c.stake :: others))
    (hlt : g < s.generations.length)
    (hstood : (id, g) ∈ s.active ∨ c.stake = .enlisting id g ∨ .enlisting id g ∈ others) : s.Endures s' id g := by
  obtain ⟨hnow, qs, ps, haged, hps, -⟩ := he.aged
  have hold {i : Nat} (hi : i < s.processes.length) : s'.processes[i]? = qs[i]? := by
    rw [hps, List.getElem?_append_left (haged.length_eq ▸ hi)]
  refine ⟨?_, ?_, ?_, ?_, ?_⟩
  · obtain ⟨xs, hxs, -⟩ := he.cores
    rw [hxs, List.getElem?_append_left (by rw [Supervisor.cores, List.length_map]; exact hlt)]
  · -- the start that makes a new record found the pipeline idle, and is the only one that marks it
    refine (he.record id).resolve_right ?_
    rintro ⟨hcleared, -⟩
    exact hsound.not_idle (by rw [hcleared]; rfl) (fun hfits => by rwa [hcleared] at hfits)
      (fun g heq => by rw [hcleared] at heq; cases heq) hstood
  · rintro i hi ⟨q, hq, hrun⟩
    rw [hold (hallotted.lt_length hi)] at hq
    have hrel := haged i
    rw [hq] at hrel
    cases hp : s.processes[i]? with
    | none =>
        rw [hp] at hrel
        exact absurd hrel (by simp)
    | some p =>
        rw [hp, Option.rel_some_some] at hrel
        exact ⟨p, hp, hrel.alive (hnow ▸ hrun)⟩
  · rintro i ⟨p, hp, hend⟩
    obtain ⟨q, hq, hlater⟩ := haged.exists_later hp
    refine ⟨q, (hold (List.getElem?_eq_some_iff.mp hp).1).trans hq, fun hrun => ?_⟩
    exact hend (hlater.alive (hnow ▸ hrun))
  · intro i hi hasked
    rcases he.asked hallotted hasked with hbefore | hleft | ⟨g', hdoomed, hi'⟩
    · exact hbefore
    · exact absurd hleft (hallotted.notMem_leftover hi List.mem_cons_self)
    · rw [hallotted.eq_of_mem_crew hi' hi] at hdoomed
      exact absurd hdoomed (hplaced.notMem_doomed hstood)

theorem endures_of_quiet (hq : s.Quiet s') (hcores : s'.cores[g]? = s.cores[g]?)
    (hrecord : ∃ ts, s'.registry.get? id = (s.registry.get? id).map (·.after ts))
    (hasked : ∀ i ∈ s.crew g, s'.Asked i → s.Asked i) : s.Endures s' id g :=
  ⟨hcores, hrecord, fun _ _ halive => hq.alive halive, fun _ hgone => hq.gone hgone, hasked⟩

theorem endures_stepMonitor (hallotted : s.Allotted stakes) {g' : Nat} {timerFirst : Bool} (hne : g' ≠ g)
    (h : s.stepMonitor g' timerFirst = some s') : s.Endures s' id g := by
  obtain ⟨x, m, hx, htick⟩ := exists_tick h
  refine endures_of_quiet (.stepMonitor h) ?_ (record_stepMonitor h id) fun i hi hasked => ?_
  · rw [cores, cores, List.getElem?_map, List.getElem?_map, touchesOnly_stepMonitor h g hne.symm]
  · rcases htick.asked hasked with hbefore | ⟨t, rest, hteardown, hprocesses⟩
    · exact hbefore
    · have hmem : i ∈ s.crew g' := by
        rw [crew, hx]
        exact hallotted.watched x.core (core_mem_cores hx) t hteardown (hprocesses ▸ List.mem_cons_self)
      exact absurd (hallotted.eq_of_mem_crew hmem hi) hne

end Supervisor

namespace Scene

variable {config : Config} {x x' : Scene} {m : Move} {id : PipelineId} {g : Nat}

def stakes (x : Scene) : List Stake := x.calls.map Call.stake

theorem effect_among_calls {k : Nat} {env : Surroundings} (h : x.play (.proceed k env) = some x') :
    ∃ c c' others, x.calls[k]? = some c ∧ x.supervisor.Effect c x'.supervisor c' ∧
      x.calls.Perm (c :: others) ∧ x'.calls.Perm (c'.toList ++ others) ∧
      (c' = none → ∃ a, x.supervisor.step env c = .answer a x'.supervisor) := by
  obtain ⟨c, hc, hstep⟩ := Option.bind_eq_some_iff.mp h
  have heffect := Supervisor.effect_step env x.supervisor c
  obtain ⟨hk, rfl⟩ := List.getElem?_eq_some_iff.mp hc
  have hbefore : x.calls.Perm (x.calls[k] :: x.calls.eraseIdx k) := (List.getElem_cons_eraseIdx_perm hk).symm
  cases hnext : x.supervisor.step env x.calls[k] with
  | answer a s =>
      rw [hnext] at hstep heffect
      obtain rfl := Option.some.inj hstep
      exact ⟨_, none, _, hc, heffect, hbefore, .refl _, fun _ => ⟨a, hnext⟩⟩
  | later c' s =>
      rw [hnext] at hstep heffect
      obtain rfl := Option.some.inj hstep
      exact ⟨_, some c', _, hc, heffect, hbefore, List.set_perm_cons_eraseIdx hk c', fun h => by cases h⟩
  | wait =>
      rw [hnext] at hstep
      cases hstep

theorem effect_of_proceed {k : Nat} {env : Surroundings} (h : x.play (.proceed k env) = some x') :
    ∃ c c' others, x.calls[k]? = some c ∧ x.supervisor.Effect c x'.supervisor c' ∧
      x.stakes.Perm (c.stake :: others) ∧ x'.stakes.Perm (c'.toList.map Call.stake ++ others) := by
  obtain ⟨c, c', others, hc, heffect, hbefore, hafter, -⟩ := effect_among_calls h
  refine ⟨c, c', others.map Call.stake, hc, heffect, hbefore.map Call.stake, ?_⟩
  rw [← List.map_append]
  exact hafter.map Call.stake

/-- A move makes transitions of a run, unless it is the one by which a start makes a new record for it. -/
theorem record_play (hm : m.isPatient = true) (hplay : x.play m = some x') (id : PipelineId) :
    (∃ ts, x'.supervisor.registry.get? id = (x.supervisor.registry.get? id).map (·.after ts)) ∨
      ∃ c ∈ x.calls, c.stake = .cleared id ∧ ∃ n, x'.supervisor.registry.get? id = some (.initial id n) := by
  cases m with
  | ask c =>
      rw [play] at hplay
      split_ifs at hplay
      obtain rfl := Option.some.inj hplay
      exact .inl (Supervisor.record_refl rfl)
  | proceed k env =>
      obtain ⟨c, c', others, hc, heffect, -⟩ := effect_of_proceed hplay
      exact (heffect.record id).imp_right fun hnew => ⟨c, List.mem_of_getElem? hc, hnew⟩
  | giveUp k => exact absurd hm (by simp [Move.isPatient])
  | watch g timerFirst =>
      obtain ⟨s, hs, rfl⟩ := Option.map_eq_some_iff.mp hplay
      exact .inl (Supervisor.record_stepMonitor hs id)
  | pass time =>
      obtain rfl := Option.some.inj hplay
      exact .inl (Supervisor.record_refl rfl)
  | signal process number =>
      obtain rfl := Option.some.inj hplay
      exact .inl (Supervisor.record_refl rfl)
  | ingest e =>
      obtain rfl := Option.some.inj hplay
      exact .inl (Supervisor.record_turns (Supervisor.turns_ingest x.supervisor e))

/-- What holds of a supervisor and what its calls have in their hands, whatever the order of the calls, holds at every
scene if each kind of step preserves it. -/
theorem Reachable.stakes_invariant {I : Supervisor → List Stake → Prop}
    (hperm : ∀ s stakes stakes', stakes.Perm stakes' → I s stakes → I s stakes')
    (hnothing : ∀ s stakes, I s (.nothing :: stakes) ↔ I s stakes) (hstart : I (ofConfig config).supervisor [])
    (hcall : ∀ s s' c c' others, s.Effect c s' c' → s.Sound (c.stake :: others) → I s (c.stake :: others) →
      I s' (Call.left c' :: others))
    (hwatch : ∀ s s' g timerFirst stakes, s.stepMonitor g timerFirst = some s' → I s stakes → I s' stakes)
    (hpass : ∀ s time stakes, I s stakes → I { s with now := s.now + time } stakes)
    (hsignal : ∀ s process number stakes, I s stakes → I (s.signal process number) stakes)
    (hingest : ∀ s e stakes, I s stakes → I (s.ingest e).2 stakes)
    (h : Reachable config (·.isPatient = true) x) : I x.supervisor x.stakes := by
  induction h with
  | start => exact hstart
  | @move x x' m hreach hm hplay ih =>
      cases m with
      | ask c =>
          rw [play] at hplay
          split_ifs at hplay with hnew
          obtain rfl := Option.some.inj hplay
          refine hperm _ _ _ ?_ ((hnothing _ _).mpr ih)
          rw [stakes, stakes, List.map_append, List.map_singleton, stake_of_isNew hnew]
          exact (List.perm_append_singleton _ _).symm
      | proceed k env =>
          obtain ⟨c, c', others, -, heffect, hbefore, hafter⟩ := effect_of_proceed hplay
          have hstep := hcall _ _ c c' others heffect (hreach.sound.perm hbefore) (hperm _ _ _ hbefore ih)
          refine hperm _ _ _ hafter.symm ?_
          cases c' with
          | none => exact (hnothing _ _).mp hstep
          | some c' => exact hstep
      | giveUp k => exact absurd hm (by simp [Move.isPatient])
      | watch g timerFirst =>
          obtain ⟨s, hs, rfl⟩ := Option.map_eq_some_iff.mp hplay
          exact hwatch _ _ _ _ _ hs ih
      | pass time =>
          obtain rfl := Option.some.inj hplay
          exact hpass _ _ _ ih
      | signal process number =>
          obtain rfl := Option.some.inj hplay
          exact hsignal _ _ _ _ ih
      | ingest e =>
          obtain rfl := Option.some.inj hplay
          exact hingest _ _ _ ih

theorem flags_stepMonitor {s s' : Supervisor} {timerFirst : Bool} (h : s.stepMonitor g timerFirst = some s') :
    s'.flags = s.flags := by
  obtain ⟨y, m, hy, htick⟩ := Supervisor.exists_tick h
  obtain ⟨held, hbecomes⟩ := htick.becomes hy
  apply List.ext_getElem?
  intro j
  rw [Supervisor.flags, Supervisor.flags, List.getElem?_map, List.getElem?_map]
  by_cases hj : j = g
  · rw [hj, hbecomes, hy]
    rfl
  · rw [Supervisor.touchesOnly_stepMonitor h j hj]

theorem Reachable.placed (h : Reachable config (·.isPatient = true) x) : x.supervisor.Placed x.stakes := by
  have hsame {s s' : Supervisor} {stakes : List Stake} (h : s.Placed stakes) (hflags : s'.flags = s.flags)
      (hactive : s'.active = s.active) : s'.Placed stakes := by
    refine h.keep hflags ?_ fun g => ?_
    · rw [Supervisor.tendedBy, Supervisor.tendedBy, hactive]
    · rw [Supervisor.sparedBy, Supervisor.sparedBy, hactive]
  refine h.stakes_invariant (fun _ _ _ hp h => h.perm hp) (fun _ _ => Supervisor.placed_nothing_cons) ?_
    (fun _ _ _ _ _ heffect hsound h => heffect.placed hsound h) (fun _ _ _ _ _ hs h => ?_)
    (fun _ _ _ h => hsame h rfl rfl) (fun _ _ _ _ h => hsame h rfl rfl) (fun _ _ _ h => hsame h rfl rfl)
  · exact ⟨List.nodup_nil, fun _ hg => absurd hg List.not_mem_nil, fun g => by simp [ofConfig, Supervisor.ofConfig,
      Supervisor.flags, Supervisor.sparedBy]⟩
  · exact hsame h (flags_stepMonitor hs) (Supervisor.Quiet.stepMonitor hs).active

theorem Reachable.allotted (h : Reachable config (·.isPatient = true) x) : x.supervisor.Allotted x.stakes := by
  refine h.stakes_invariant (fun _ _ _ hp h => h.perm hp) (fun _ _ => Supervisor.allotted_nothing_cons) ?_
    (fun _ _ _ _ _ heffect _ h => heffect.allotted h) (fun _ _ _ _ _ hs h => h.stepMonitor hs)
    (fun _ _ _ h => h.quiet (.pass _ _) h.watched) (fun _ _ _ _ h => h.quiet (.signal _ _ _) h.watched)
    (fun _ _ _ h => h.quiet (.ingest _ _) h.watched)
  exact ⟨List.nodup_nil, fun _ hi => absurd hi List.not_mem_nil, fun _ hx => absurd hx List.not_mem_nil,
    fun _ hst => absurd hst List.not_mem_nil⟩

/-! ### Generations that stand -/

def Stands (x : Scene) (id : PipelineId) (g : Nat) : Prop :=
  (id, g) ∈ x.supervisor.active ∨ .enlisting id g ∈ x.stakes

theorem Stands.isOf (h : Reachable config (·.isPatient = true) x) (hg : x.Stands id g) : x.supervisor.IsOf g id := by
  rcases hg with hactive | hstake
  · exact h.sound.known id g hactive
  · exact (h.sound.fits _ hstake).2

/-- Nobody has begun to end a generation that stands. -/
theorem Stands.not_cancelled (h : Reachable config (·.isPatient = true) x) (hg : x.Stands id g) {y : Generation}
    (hy : x.supervisor.generations[g]? = some y) : y.cancelled = false := by
  have hspared : g ∈ x.supervisor.sparedBy x.stakes := by
    rcases hg with hactive | hstake
    · exact List.mem_append_left _ (List.mem_map_of_mem hactive)
    · exact List.mem_append_right _ (List.mem_flatMap.mpr ⟨_, hstake, List.mem_cons_self⟩)
  have hflag := (h.placed.spared_iff g).mpr hspared
  rw [Supervisor.flags, List.getElem?_map, hy, Option.map_some] at hflag
  exact Option.some.inj hflag

def Doomed (x : Scene) (g : Nat) : Prop := ∃ st ∈ x.stakes, g ∈ st.doomed

/-- A generation whose monitor was not cancelled stands, unless a shutdown has taken it out of the active ones and is to
end it later. -/
theorem stands_of_not_cancelled (h : Reachable config (·.isPatient = true) x) {y : Generation}
    (hy : x.supervisor.generations[g]? = some y) (hcancelled : y.cancelled = false) (hdoomed : ¬x.Doomed g) :
    x.Stands y.pipeline g := by
  have hflag : x.supervisor.flags[g]? = some false := by
    rw [Supervisor.flags, List.getElem?_map, hy, Option.map_some, hcancelled]
  have hof {id : PipelineId} (hof : x.supervisor.IsOf g id) : y.pipeline = id := by
    obtain ⟨z, hz, hid⟩ := hof
    rw [Option.some.inj (hy.symm.trans hz)]
    exact hid
  rcases List.mem_append.mp ((h.placed.spared_iff g).mp hflag) with hactive | hstakes
  · obtain ⟨⟨id, g⟩, hmem, rfl⟩ := List.mem_map.mp hactive
    rw [hof (h.sound.known id g hmem)]
    exact .inl hmem
  · obtain ⟨st, hst, hg⟩ := List.mem_flatMap.mp hstakes
    cases st with
    | enlisting id g' =>
        obtain rfl := List.mem_singleton.mp hg
        rw [hof (h.sound.fits _ hst).2]
        exact .inr hst
    | ending runs => exact absurd ⟨_, hst, List.mem_of_mem_tail hg⟩ hdoomed
    | _ => exact absurd hg List.not_mem_nil

/-- A generation that stands stood before or was just made; and if it was not its monitor that moved, it has endured. -/
theorem Stands.before (h : Reachable config (·.isPatient = true) x) (hm : m.isPatient = true)
    (hplay : x.play m = some x') (hg : x'.Stands id g) :
    (∃ y, g = x.supervisor.generations.length ∧ y.pipeline = id ∧ x'.supervisor.SetsOut g y) ∨
      x.Stands id g ∧ ((∀ timerFirst, m ≠ .watch g timerFirst) → x.supervisor.Endures x'.supervisor id g) := by
  have hsame {s : Supervisor} (hq : x.supervisor.Quiet s) (hcores : s.cores = x.supervisor.cores)
      (hrequests : s.requests = x.supervisor.requests)
      (hrecord : ∃ ts, s.registry.get? id = (x.supervisor.registry.get? id).map (·.after ts)) :
      x.supervisor.Endures s id g :=
    Supervisor.endures_of_quiet hq (by rw [hcores]) hrecord fun i _ hi => by rwa [Supervisor.Asked, ← hrequests]
  cases m with
  | ask c =>
      rw [play] at hplay
      split_ifs at hplay with hnew
      obtain rfl := Option.some.inj hplay
      refine .inr ⟨hg.imp_right fun hstake => ?_, fun _ => hsame (.refl _) rfl rfl (Supervisor.record_refl rfl)⟩
      rw [stakes, List.map_append, List.map_singleton, stake_of_isNew hnew] at hstake
      exact (List.mem_append.mp hstake).resolve_right (by simp)
  | proceed k env =>
      obtain ⟨c, c', others, -, heffect, hbefore, hafter⟩ := effect_of_proceed hplay
      have hreach' := h.move hm hplay
      obtain ⟨y, hy, hid⟩ := hg.isOf hreach'
      have hcore : x'.supervisor.cores[g]? = some y.core := Supervisor.getElem?_cores hy
      have hstands (hstood : (id, g) ∈ x.supervisor.active ∨ c.stake = .enlisting id g ∨ .enlisting id g ∈ others) :
          x.Stands id g ∧ x.supervisor.Endures x'.supervisor id g := by
        have hg : x.Stands id g := by
          rcases hstood with hactive | hstake | hother
          · exact .inl hactive
          · exact .inr (hbefore.mem_iff.mpr (hstake ▸ List.mem_cons_self))
          · exact .inr (hbefore.mem_iff.mpr (List.mem_cons_of_mem _ hother))
        obtain ⟨z, hz, -⟩ := hg.isOf h
        exact ⟨hg, heffect.endures (h.sound.perm hbefore) (h.placed.perm hbefore) (h.allotted.perm hbefore)
          (List.getElem?_eq_some_iff.mp hz).1 hstood⟩
      have hown (hown : (id, g) ∈ x'.supervisor.active ∨ Call.left c' = .enlisting id g) :
          (∃ y, g = x.supervisor.generations.length ∧ y.pipeline = id ∧ x'.supervisor.SetsOut g y) ∨
            x.Stands id g ∧ x.supervisor.Endures x'.supervisor id g := by
        rcases heffect.stood hcore hown with hactive | hstake | ⟨hnew, -, hid, hsets⟩
        · exact .inr (hstands (.inl hactive))
        · exact .inr (hstands (.inr (.inl hstake)))
        · exact .inl ⟨_, hnew, hid, hsets⟩
      -- it is the call that went on, or another one, that has the generation in its hands
      have hcases : (∃ y, g = x.supervisor.generations.length ∧ y.pipeline = id ∧ x'.supervisor.SetsOut g y) ∨
          x.Stands id g ∧ x.supervisor.Endures x'.supervisor id g := by
        rcases hg with hactive | hstake
        · exact hown (.inl hactive)
        · rcases List.mem_append.mp (hafter.mem_iff.mp hstake) with hstake | hother
          · cases c' with
            | none => exact absurd hstake List.not_mem_nil
            | some d => exact hown (.inr (List.mem_singleton.mp hstake).symm)
          · exact .inr (hstands (.inr (.inr hother)))
      exact hcases.imp_right fun hold => ⟨hold.1, fun _ => hold.2⟩
  | giveUp k => exact absurd hm (by simp [Move.isPatient])
  | watch g' timerFirst =>
      obtain ⟨s, hs, rfl⟩ := Option.map_eq_some_iff.mp hplay
      have hactive := (Supervisor.Quiet.stepMonitor hs).active
      refine .inr ⟨hg.imp_left fun hg => hactive ▸ hg, fun hne => ?_⟩
      refine Supervisor.endures_stepMonitor h.allotted (fun heq => hne timerFirst (heq ▸ rfl)) hs
  | pass time =>
      obtain rfl := Option.some.inj hplay
      exact .inr ⟨hg, fun _ => hsame (.pass _ _) rfl rfl (Supervisor.record_refl rfl)⟩
  | signal process number =>
      obtain rfl := Option.some.inj hplay
      exact .inr ⟨hg, fun _ => hsame (.signal _ _ _) rfl (Supervisor.requests_signal _ _ _) (Supervisor.record_refl rfl)⟩
  | ingest e =>
      obtain rfl := Option.some.inj hplay
      exact .inr ⟨hg, fun _ => hsame (.ingest _ _) rfl rfl
        (Supervisor.record_turns (Supervisor.turns_ingest x.supervisor e))⟩

/-- Moves of others than the monitor of a generation that may change the record of its pipeline: a lifecycle event of
the pipeline comes in, the monitor of another generation of the pipeline is at a stage at which it reports, or a call
goes on that is about to end the run. -/
inductive Interferes (x : Scene) (g : Nat) (id : PipelineId) : Move → Prop where
  | event {e : Event} : e.category = .lifecycle → e.run = id → Interferes x g id (.ingest e)
  | report {g' : Nat} {timerFirst : Bool} {y : Generation} {ts : List Transition} : g' ≠ g →
      x.supervisor.generations[g']? = some y → y.pipeline = id → y.Reports ts → Interferes x g id (.watch g' timerFirst)
  | call {k : Nat} {env : Surroundings} {c : Call} : x.calls[k]? = some c → Supervisor.EndsBy c id →
      Interferes x g id (.proceed k env)

/-- Nobody else changes the record of a generation that stands. -/
theorem Stands.interferes (h : Reachable config (·.isPatient = true) x) (hm : m.isPatient = true)
    (hplay : x.play m = some x') (hg : x.Stands id g) (hothers : ∀ timerFirst, m ≠ .watch g timerFirst)
    (hne : x'.supervisor.registry.get? id ≠ x.supervisor.registry.get? id) : x.Interferes g id m := by
  cases m with
  | ask c =>
      rw [play] at hplay
      split_ifs at hplay
      obtain rfl := Option.some.inj hplay
      exact absurd rfl hne
  | proceed k env =>
      obtain ⟨c, c', others, hc, heffect, hbefore, -⟩ := effect_of_proceed hplay
      have hstood : (id, g) ∈ x.supervisor.active ∨ c.stake = .enlisting id g ∨ .enlisting id g ∈ others :=
        hg.imp_right fun hstake => (List.mem_cons.mp (hbefore.mem_iff.mp hstake)).imp_left Eq.symm
      rcases heffect.turns with hsame | ⟨id', -, hcleared, -, hkept⟩ | ⟨id', t, hends, -, -, hturns⟩
      · exact absurd (by rw [hsame]) hne
      · -- who makes a new record has found the pipeline idle, but a generation stands
        refine absurd hstood ?_
        obtain rfl : id = id' := by
          by_contra hid
          exact hne (hkept id hid)
        exact (h.sound.perm hbefore).not_idle (by rw [hcleared]; rfl) (fun hfits => by rwa [hcleared] at hfits)
          (fun g heq => by rw [hcleared] at heq; cases heq)
      · exact .call hc ((hturns.of_ne hne).1 ▸ hends)
  | giveUp k => exact absurd hm (by simp [Move.isPatient])
  | watch g' timerFirst =>
      obtain ⟨s, hs, rfl⟩ := Option.map_eq_some_iff.mp hplay
      obtain ⟨y, m, hy, -⟩ := Supervisor.exists_tick hs
      rcases Supervisor.turns_stepMonitor hy hs with hsame | ⟨ts, hreports, hturns⟩
      · exact absurd (congrArg (·.get? id) hsame) hne
      · exact .report (fun heq => hothers timerFirst (heq ▸ rfl)) hy (hturns.of_ne hne).1.symm hreports
  | pass time =>
      obtain rfl := Option.some.inj hplay
      exact absurd rfl hne
  | signal process number =>
      obtain rfl := Option.some.inj hplay
      exact absurd rfl hne
  | ingest e =>
      obtain rfl := Option.some.inj hplay
      obtain ⟨hid, -⟩ := (Supervisor.turns_ingest x.supervisor e).of_ne hne
      refine .event ?_ hid.symm
      by_contra hcategory
      refine hne ?_
      cases hkind : e.category with
      | lifecycle => exact absurd hkind hcategory
      | _ =>
          change ((x.supervisor.bus.ingest e).2.registry).get? id = _
          rw [Bus.ingest, hkind]
          rfl

end Scene

end Pipeworks
