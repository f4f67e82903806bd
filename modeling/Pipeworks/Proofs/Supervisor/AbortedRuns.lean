import Pipeworks.Proofs.Supervisor.StartStories

/-!
What an abort is worth. An abort ends the run of its pipeline first, and looks for an active generation then; a start
makes the record of its run first, and enters its generation last. So an abort that comes between ends the run, finds
nothing to end, and says that the pipeline is aborted, while the start goes on to start its processes. An abort that no
start of the pipeline overlaps leaves no process of it but those that another call is ending.
-/

namespace Pipeworks

namespace Supervisor

variable {env : Surroundings} {s s' : Supervisor} {id : PipelineId} {g : Nat}

def jobs (s : Supervisor) (id : PipelineId) : List WorkerSpec := s.launched.filter (·.pipeline = id)

theorem IsOf.unique {id' : PipelineId} (h : s.IsOf g id) (h' : s.IsOf g id') : id = id' := by
  obtain ⟨x, hx, rfl⟩ := h
  obtain ⟨x', hx', rfl⟩ := h'
  rw [Option.some.inj (hx.symm.trans hx')]

theorem Idle.of_active (h : s.Idle id) (hsub : s'.active ⊆ s.active) : s'.Idle id := fun g hg => h g (hsub hg)

theorem Effect.idle {c : Call} {c' : Option Call} (he : Effect s c s' c') (hc : c.isStart = false) (h : s.Idle id) :
    s'.Idle id := by
  cases he with
  | looks hlooks => exact h.of_active (hlooks.active ▸ List.Subset.refl _)
  | taken => exact h.of_active List.filter_sublist.subset
  | takenAll => exact h.of_active (List.nil_subset _)
  | aborted => exact h
  | goesOn _ _ _ hstep => exact h.of_active ((flags_stepTakedown hstep).2 ▸ List.Subset.refl _)
  | ended _ hstep => exact h.of_active ((flags_stepTakedown hstep).2 ▸ List.Subset.refl _)
  | next hstep => exact h.of_active ((flags_stepTakedown hstep).2 ▸ List.Subset.refl _)
  | refused | released | unwound | launched | unwinds | failed | enlisted => cases hc

theorem idle_stepAbort (s : Supervisor) (id : PipelineId) (moved : Bool) :
    (s.stepAbort id (.marked moved)).Leads fun s' _ => s'.Idle id := by
  rw [stepAbort]
  split_ifs
  · trivial
  · cases hactive : s.generation? id with
    | some g => exact fun g hg => by simpa using (List.mem_filter.mp hg).2
    | none =>
        have hidle := idle_of_generation? hactive
        dsimp only
        split
        · exact hidle
        · exact hidle.quiet (quiet_concludeAbort s id moved)

end Supervisor

namespace Thread

variable {env : Surroundings} {s s' : Supervisor} {t t' : Thread} {id : PipelineId}

def starts? : Thread → Option PipelineId
  | calling (.start id _ _) => some id
  | launching l _ => some l.id
  | failing id _ => some id
  | leaving id _ => some id
  | _ => none

theorem starts?_of_marked (h : t.marked? = some id) : t.starts? = some id := by
  cases t with
  | calling c =>
      cases c with
      | start id o stage =>
          cases stage with
          | asked => cases h
          | _ => exact h
      | _ => cases h
  | _ => exact h

theorem starts?_of_mark? (h : t.stake.mark? = some id) : t.starts? = some id :=
  starts?_of_marked ((mark?_stake t).symm.trans h)

def Tasked : Thread → Prop
  | launching l (.spawning specs _) => ∀ spec ∈ specs, spec.pipeline = l.id
  | _ => True

inductive LooksFor (id : PipelineId) : Thread → Prop where
  | asked : LooksFor id (calling (.abort id .asked))
  | marked {moved : Bool} : LooksFor id (calling (.abort id (.marked moved)))

namespace Does

theorem starts?_eq (h : Does env s t t' s') (ht' : t'.starts? = some id) : t.starts? = some id := by
  cases h with
  | @later c c' _ hc hstep =>
      have habstains := Supervisor.abstains_step env (s := s) hc
      rw [hstep] at habstains
      cases c' with
      | start id o stage => cases habstains.1
      | _ => cases ht'
  | doubts | joined | known => cases ht'
  | answers | unknown | concludes | barred | leaves => cases ht'
  | _ => exact ht'

theorem tasked (h : Does env s t t' s') (ht : t.Tasked) : t'.Tasked := by
  cases h with
  | records => exact pipeline_specs _ _ _ _ _
  | spawns => exact fun spec hspec => ht spec (List.mem_cons_of_mem _ hspec)
  | _ => trivial

theorem idle (h : Does env s t t' s') (ht : t.starts? ≠ some id) (hs : s.Idle id) : s'.Idle id := by
  cases h with
  | later hc hstep => exact (effect_of_does hstep).idle hc hs
  | answers hc hstep => exact (effect_of_does hstep).idle hc hs
  | joined hstep => exact hs.of_active ((Supervisor.flags_stepTakedown hstep).2 ▸ List.Subset.refl _)
  | concludes => exact hs.quiet (Supervisor.quiet_concludeAbort _ _ _)
  | alive => exact fun g hg => hs g ((Supervisor.Quiet.anyAlive s _).active ▸ hg)
  | dead =>
      refine hs.of_active ?_
      rw [← (Supervisor.Quiet.anyAlive s _).active]
      exact List.filter_sublist.subset
  | spawns hspawn =>
      have hgrown := (Supervisor.spawnAll_spec (Supervisor.spawnAll_of_ok hspawn [])).1
      exact hs.of_active (hgrown.active ▸ List.Subset.refl _)
  | breaks hspawn =>
      have hgrown := (Supervisor.spawnAll_spec (Supervisor.spawnAll_of_error hspawn [])).1
      exact hs.of_active (hgrown.active ▸ List.Subset.refl _)
  | unwinds hnext => exact hs.quiet (Teardown.quiet_of_next_later hnext)
  | @enters id' o g r _ =>
      intro g' hg'
      rcases List.mem_append.mp hg' with hg' | hg'
      · exact hs g' (List.mem_filter.mp hg').1
      · obtain ⟨rfl, -⟩ := Prod.mk.inj (List.mem_singleton.mp hg')
        exact ht rfl
  | _ => exact hs

theorem launched (h : Does env s t t' s') : s'.launched = s.launched ∨
    ∃ l spec specs ms, t = launching l (.spawning (spec :: specs) ms) ∧ s'.launched = s.launched ++ [spec] := by
  rcases h.books with hsame | ⟨l, -, rfl⟩ | ⟨l, spec, specs, ms, rfl, hbooks⟩
  · exact .inl (Supervisor.launched_of_books hsame)
  · exact .inl rfl
  · exact .inr ⟨l, spec, specs, ms, rfl, congrArg (·.2.2) hbooks⟩

theorem jobs (h : Does env s t t' s') (ht : t.starts? ≠ some id) (htasked : t.Tasked) : s'.jobs id = s.jobs id := by
  obtain hsame | ⟨l, spec, specs, ms, rfl, hlaunched⟩ := h.launched
  · exact congrArg (List.filter _) hsame
  · have hspec : spec.pipeline = l.id := htasked spec List.mem_cons_self
    have hother : spec.pipeline ≠ id := fun hid => ht (congrArg some (hspec.symm.trans hid))
    simp [Supervisor.jobs, hlaunched, List.filter_append, hother]

/-- An abort goes on to look for an active generation, and there is none when it has looked. -/
theorem looksFor (h : Does env s t t' s') (ht : t.LooksFor id) : t'.LooksFor id ∨ s'.Idle id := by
  cases ht with
  | asked =>
      refine .inl ?_
      cases h with
      | later _ hstep => cases hstep; exact .marked
      | answers _ hstep => cases hstep
  | @marked moved =>
      have hleads := Supervisor.idle_stepAbort s id moved
      refine .inr ?_
      cases h with
      | later _ hstep => rwa [show s.stepAbort id (.marked moved) = _ from hstep] at hleads
      | answers _ hstep => rwa [show s.stepAbort id (.marked moved) = _ from hstep] at hleads
      | doubts _ hactive => exact Supervisor.idle_of_generation? hactive

end Does

end Thread

namespace Threads

variable {config : Config} {x x' w y : Threads} {m : Move} {k : Nat} {id : PipelineId} {t : Thread}

/-! ### While nobody starts a pipeline -/

def Spares (id : PipelineId) (m : Move) : Prop := ∀ o, m ≠ .ask (.startOf id o)

def StartsNone (x : Threads) (id : PipelineId) : Prop := ∀ t ∈ x.threads, t.starts? ≠ some id

def Ends (x : Threads) (id : PipelineId) (g : Nat) : Prop :=
  ∃ t ∈ x.threads, ∃ runs, t.stake = .ending runs ∧ ∃ u, (id, g, u) ∈ runs

/-- A process of the pipeline is alive: it belongs to a generation, or a start that started it has it in its hands. -/
def Lives (x : Threads) (id : PipelineId) (i : Nat) : Prop :=
  x.supervisor.Alive i ∧
    ((∃ g, x.supervisor.IsOf g id ∧ i ∈ x.supervisor.crew g) ∨
      ∃ t ∈ x.threads, ∃ u, t.stake = .unwinding id u ∧ i ∈ u.processes)

theorem Reachable.tasked (h : Reachable config x) : ∀ t ∈ x.threads, t.Tasked := by
  refine Leads.invariant (I := fun x => ∀ t ∈ x.threads, t.Tasked) ?_ h (by rintro t ⟨⟩)
  intro x m x' _ hx hplay
  refine (happens_of_play hplay).threads hx (fun _ _ _ => trivial) ?_
  exact fun t t' env ht hdoes => hdoes.tasked (hx t ht)

theorem StartsNone.happens (hx : x.StartsNone id) (hm : Spares id m) (h : x.Happens m x') : x'.StartsNone id := by
  refine h.threads hx ?_ fun t t' env ht hdoes ht' => hx t ht (hdoes.starts?_eq ht')
  rintro c rfl hnew hc
  cases c with
  | start id' o stage =>
      obtain rfl : id' = id := Option.some.inj hc
      cases stage with
      | asked => exact hm o rfl
      | _ => cases hnew
  | _ => cases hc

structure Spared (w x : Threads) (id : PipelineId) : Prop where
  owned : x.Owned
  tasked : ∀ t ∈ x.threads, t.Tasked
  starts : x.StartsNone id
  jobs : x.supervisor.jobs id = w.supervisor.jobs id

theorem Spared.happens (hx : Spared w x id) (hm : Spares id m) (h : x.Happens m x') : Spared w x' id where
  owned := hx.owned.happens h
  tasked := h.threads hx.tasked (fun _ _ _ => trivial) fun t t' env ht hdoes => hdoes.tasked (hx.tasked t ht)
  starts := hx.starts.happens hm h
  jobs := by
    refine Eq.trans ?_ hx.jobs
    cases h with
    | asks => rfl
    | goes ht hdoes =>
        have hmem := List.mem_of_getElem? ht
        exact hdoes.jobs (hx.starts _ hmem) (hx.tasked _ hmem)
    | drifts _ hdrifts => exact congrArg (List.filter _) (Supervisor.launched_of_books hdrifts.books)

theorem Spared.idle (hx : Spared w x id) (h : x.Happens m x') (hidle : x.supervisor.Idle id) :
    x'.supervisor.Idle id := by
  cases h with
  | asks => exact hidle
  | goes ht hdoes => exact hdoes.idle (hx.starts _ (List.mem_of_getElem? ht)) hidle
  | drifts _ hdrifts => exact hidle.quiet hdrifts.quiet

/-- An abort that has not looked yet, or has seen to it that the pipeline is not active. -/
def Quits (x : Threads) (k : Nat) (id : PipelineId) : Prop :=
  (∃ t, x.threads[k]? = some t ∧ t.LooksFor id) ∨ x.supervisor.Idle id

theorem Spared.quits (hx : Spared w x id) (h : x.Happens m x') (hquits : x.Quits k id) : x'.Quits k id := by
  rcases hquits with ⟨t, ht, hlooks⟩ | hidle
  · cases h with
    | asks => exact .inl ⟨t, by rwa [List.getElem?_append_left (List.getElem?_eq_some_iff.mp ht).1], hlooks⟩
    | @goes l env u u' s' hu hdoes =>
        by_cases hkl : l = k
        · subst hkl
          obtain rfl : u = t := Option.some.inj (hu.symm.trans ht)
          have hlength := (List.getElem?_eq_some_iff.mp ht).1
          exact (hdoes.looksFor hlooks).imp_left fun hlooks => ⟨u', List.getElem?_set_self hlength, hlooks⟩
        · exact .inl ⟨t, by rwa [List.getElem?_set_ne hkl], hlooks⟩
    | drifts => exact .inl ⟨t, ht, hlooks⟩
  · exact .inr (hx.idle h hidle)

/-- A process of a pipeline that is not active and that nobody starts is alive only while a call is ending it. -/
theorem Spared.ends (hx : Spared w x id) (hidle : x.supervisor.Idle id) {i : Nat} (hi : x.Lives id i) :
    ∃ g, i ∈ x.supervisor.crew g ∧ x.Ends id g := by
  obtain ⟨halive, ⟨g, hof, hcrew⟩ | ⟨t, ht, u, hstake, -⟩⟩ := hi
  · refine ⟨g, hcrew, ?_⟩
    rcases hx.owned.sound.tended g ⟨i, hcrew, halive⟩ with ⟨id', hactive⟩ | ⟨st, hst, hg⟩
    · obtain rfl := (hx.owned.sound.known id' g hactive).unique hof
      exact absurd hactive (hidle g)
    · obtain ⟨t, ht, rfl⟩ := List.mem_map.mp hst
      have hfits := hx.owned.sound.fits _ hst
      cases hstake : t.stake with
      | enlisting id' g' =>
          rw [hstake] at hg hfits
          obtain rfl := List.mem_singleton.mp hg
          obtain rfl := hfits.2.unique hof
          exact absurd (Thread.starts?_of_mark? (congrArg Stake.mark? hstake)) (hx.starts t ht)
      | ending runs =>
          rw [hstake] at hg hfits
          obtain ⟨⟨id', g', u⟩, hrun, rfl⟩ := List.mem_map.mp hg
          obtain rfl := (hfits _ hrun).1.unique hof
          exact ⟨t, ht, runs, hstake, u, hrun⟩
      | _ => simp [hstake, Stake.tended] at hg
  · exact absurd (Thread.starts?_of_mark? (congrArg Stake.mark? hstake)) (hx.starts t ht)

/-- An abort sticks if no start of the pipeline is under way when it looks for an active generation, whatever it answers
and whatever else happens: for as long as nobody asks for a start, no process of the pipeline is started, and those that
are alive after the answer belong to generations that other calls are ending. -/
theorem abort_sticks_unless_overlapped {a : Answer} (hw : Reachable config w) (ht : w.threads[k]? = some t)
    (hlooks : t.LooksFor id) (hstarts : w.StartsNone id) (hwx : Leads (Spares id) w x)
    (hover : x.threads[k]? = some (.answered a)) (hxy : Leads (Spares id) x y) :
    y.supervisor.jobs id = w.supervisor.jobs id ∧
      ∀ i, y.Lives id i → ∃ g, i ∈ y.supervisor.crew g ∧ y.Ends id g := by
  have hwx := hwx.invariant (I := fun z => Spared w z id ∧ z.Quits k id)
    (fun z m z' hm hz hplay =>
      ⟨hz.1.happens hm (happens_of_play hplay), hz.1.quits (happens_of_play hplay) hz.2⟩)
    ⟨⟨hw.owned, hw.tasked, hstarts, rfl⟩, .inl ⟨t, ht, hlooks⟩⟩
  have hidle : x.supervisor.Idle id := by
    rcases hwx.2 with ⟨u, hu, hlooks⟩ | hidle
    · obtain rfl : u = .answered a := Option.some.inj (hu.symm.trans hover)
      cases hlooks
    · exact hidle
  have hxy := hxy.invariant (I := fun z => Spared w z id ∧ z.supervisor.Idle id)
    (fun z m z' hm hz hplay =>
      ⟨hz.1.happens hm (happens_of_play hplay), hz.1.idle (happens_of_play hplay) hz.2⟩) ⟨hwx.1, hidle⟩
  exact ⟨hxy.1.jobs, fun i => hxy.1.ends hxy.2⟩

def settled : List Move :=
  .ask (.startOf 1 ⟨none, none⟩) :: List.replicate 11 (.proceed 0 Scene.calm) ++ [.ask (.abortOf 1)]

/-- The abort comes to its answer: it ends the monitor and then the process. -/
def windingUp : List Move :=
  List.replicate 2 (.proceed 1 Scene.calm) ++ List.replicate 2 (.watch 0 false) ++
    List.replicate 6 (.proceed 1 Scene.calm)

theorem settled_abort_sticks : ∃ w x y, Reachable {} w ∧ w.threads[1]? = some (.calling (.abortOf 1)) ∧
    w.StartsNone 1 ∧ Leads (Spares 1) w x ∧
    x.threads[1]? = some (.answered (.control ⟨1, .aborted, "Pipeline aborted"⟩)) ∧ Leads (Spares 1) x y ∧
    (y.supervisor.jobs 1).length = 1 ∧ ∀ i, y.Lives 1 i → ∃ g, i ∈ y.supervisor.crew g ∧ y.Ends 1 g := by
  obtain ⟨w, x, hw, hx, hk, hstarts, hover, hlength⟩ : ∃ w x, settled.foldlM play (ofConfig {}) = some w ∧
      windingUp.foldlM play w = some x ∧ w.threads[1]? = some (.calling (.abortOf 1)) ∧
      w.threads.map Thread.starts? = [none, none] ∧
      x.threads[1]? = some (.answered (.control ⟨1, .aborted, "Pipeline aborted"⟩)) ∧
      (w.supervisor.jobs 1).length = 1 := ⟨_, _, rfl, rfl, rfl, rfl, rfl, rfl⟩
  have hreachable : Reachable {} w := Leads.plays settled (fun _ _ => trivial) hw
  have hnone : w.StartsNone 1 := by
    intro t ht hstart
    have hmem := hstarts ▸ List.mem_map_of_mem ht
    simp [hstart] at hmem
  have hwx : Leads (Spares 1) w x := Leads.plays windingUp (by simp [windingUp, Spares]) hx
  have hsticks := abort_sticks_unless_overlapped hreachable hk .asked hnone hwx hover .refl
  exact ⟨w, x, x, hreachable, hk, hnone, hwx, hover, .refl, hsticks.1 ▸ hlength, hsticks.2⟩

/-- A start has made the record of its run, and has not started its process yet. -/
def underWay : List Move := .ask (.startOf 1 ⟨none, none⟩) :: List.replicate 7 (.proceed 0 Scene.calm)

/-- The start goes on after the abort has come to its answer. -/
theorem overtaken_abort : ∃ w w' x y, Reachable {} w ∧ w.play (.ask (.abortOf 1)) = some w' ∧
    Leads (Spares 1) w' x ∧ x.threads[w.threads.length]? = some (.answered (.control ⟨1, .aborted, "Pipeline aborted"⟩)) ∧
    Leads (Spares 1) x y ∧ y.supervisor.jobs 1 ≠ x.supervisor.jobs 1 ∧ y.Lives 1 0 := by
  obtain ⟨w, w', x, y, hw, hask, hx, hover, hy, hbefore, hafter, halive, hof, hcrew⟩ : ∃ w w' x y,
      underWay.foldlM play (ofConfig {}) = some w ∧ w.play (.ask (.abortOf 1)) = some w' ∧
      (List.replicate 4 (.proceed 1 Scene.calm)).foldlM play w' = some x ∧
      x.threads[w.threads.length]? = some (.answered (.control ⟨1, .aborted, "Pipeline aborted"⟩)) ∧
      (List.replicate 4 (.proceed 0 Scene.calm)).foldlM play x = some y ∧
      (x.supervisor.jobs 1).length = 0 ∧ (y.supervisor.jobs 1).length = 1 ∧ y.supervisor.Alive 0 ∧
      y.supervisor.IsOf 0 1 ∧ 0 ∈ y.supervisor.crew 0 :=
    ⟨_, _, _, _, rfl, rfl, rfl, rfl, rfl, rfl, rfl, ⟨_, rfl, rfl⟩, ⟨_, rfl, rfl⟩, List.mem_cons_self⟩
  refine ⟨w, w', x, y, Leads.plays underWay (fun _ _ => trivial) hw, hask,
    Leads.plays _ (by simp [Spares]) hx, hover, Leads.plays _ (by simp [Spares]) hy, ?_, halive, .inl ⟨0, hof, hcrew⟩⟩
  intro hjobs
  rw [hjobs, hbefore] at hafter
  cases hafter

/-- After an abort has said that the pipeline is aborted, processes of it may be started and live, though nobody has
asked for a start since. -/
theorem not_abort_sticks : ¬∀ (config : Config) (w w' x y : Threads) (id : PipelineId), Reachable config w →
    w.play (.ask (.abortOf id)) = some w' → Leads (Spares id) w' x →
    x.threads[w.threads.length]? = some (.answered (.control ⟨id, .aborted, "Pipeline aborted"⟩)) →
    Leads (Spares id) x y → y.supervisor.jobs id = x.supervisor.jobs id ∧ ∀ i, ¬y.Lives id i := by
  intro h
  obtain ⟨w, w', x, y, hw, hask, hx, hover, hy, hjobs, -⟩ := overtaken_abort
  exact hjobs (h {} w w' x y 1 hw hask hx hover hy).1

end Threads

end Pipeworks
