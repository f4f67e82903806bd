import Pipeworks.Proofs.Supervisor.Ownership

/-!
Every step of a call keeps the invariant of ownership. A start marks its pipeline, sees that no generation is active
for it, and brings its own among the active ones; a stop, an abort and a shutdown take generations out of the active
ones and keep them in their hands until no process is left. Each step is one exchange of stakes or a quiet one.
-/

namespace Pipeworks

/-- What a step of a call leads to, and what the call has in its hands then. -/
def Call.Next.Leads (n : Call.Next) (P : Supervisor → Stake → Prop) : Prop :=
  match n with
  | .answer _ s => P s .nothing
  | .later c s => P s c.stake
  | .wait => True

namespace Supervisor

variable {s s' : Supervisor} {others : List Stake} {id : PipelineId} {g : Nat}

theorem mem_active_of_generation? (h : s.generation? id = some g) : (id, g) ∈ s.active := by
  obtain ⟨⟨id', g'⟩, hfind, rfl⟩ := Option.map_eq_some_iff.mp h
  obtain rfl : id' = id := by simpa using List.find?_some hfind
  exact List.mem_of_find?_eq_some hfind

theorem idle_of_generation? (h : s.generation? id = none) : s.Idle id := by
  intro g hg
  have hnone := List.find?_eq_none.mp (Option.map_eq_none_iff.mp h) (id, g) hg
  simp at hnone

theorem Sound.eq_of_mem_active {stakes : List Stake} (h : s.Sound stakes) {g' : Nat} (hg : (id, g) ∈ s.active)
    (hg' : (id, g') ∈ s.active) : g = g' :=
  congrArg Prod.snd (List.inj_on_of_nodup_map h.keys hg hg' rfl)

/-- Who takes a pipeline out of the active ones takes its one active generation. -/
theorem Sound.eq_of_mem_of_notMem_filter {stakes : List Stake} (h : s.Sound stakes) (hg : (id, g) ∈ s.active)
    {id' : PipelineId} {g' : Nat} (hmem : (id', g') ∈ s.active) (hnot : (id', g') ∉ s.active.filter (·.1 ≠ id)) :
    g' = g := by
  obtain rfl : id' = id := by
    by_contra hne
    exact hnot (List.mem_filter.mpr ⟨hmem, by simpa using hne⟩)
  exact h.eq_of_mem_active hmem hg

/-! ### Starts -/

theorem Sound.refuse (h : s.Sound (.marked id :: others)) (e : Error) :
    (s.refuse id e).Leads fun s' st' => s'.Sound (st' :: others) := h.unmark

theorem Sound.clear (h : s.Sound (.marked id :: others)) (hidle : s.Idle id) : s.Sound (.cleared id :: others) :=
  h.swap rfl (fun hlock => hlock) hidle (by simp) (by simp)

theorem Sound.marked_of_cleared (h : s.Sound (.cleared id :: others)) : s.Sound (.marked id :: others) :=
  h.swap rfl (fun hlock => hlock) trivial (by simp) (by simp)

theorem Sound.refuseCleared (h : s.Sound (.cleared id :: others)) (e : Error) :
    (s.refuse id e).Leads fun s' st' => s'.Sound (st' :: others) := h.marked_of_cleared.refuse e

theorem Sound.markStarting (h : s.Sound (.nothing :: others)) (o : StartOptions) :
    (s.markStarting id o).Leads fun s' st' => s'.Sound (st' :: others) := by
  rw [Supervisor.markStarting]
  split_ifs with hid
  · exact h
  · dsimp only
    split
    · exact (h.mark hid).refuse _
    · exact h.mark hid

theorem Sound.inspect (h : s.Sound (.inspecting id g :: others)) (o : StartOptions) :
    (s.inspect id o g).Leads fun s' st' => s'.Sound (st' :: others) := by
  have hlook := h.quiet (.anyAlive s g)
  have hback := hlook.giveBack
  have hdead (hnone : (s.anyAlive g).1 = false) {i : Nat} (hi : i ∈ (s.anyAlive g).2.crew g) :
      ¬(s.anyAlive g).2.Alive i := by
    rw [(Quiet.anyAlive s g).crew_eq] at hi
    exact not_alive_of_anyAlive h.honest hnone hi
  rw [Supervisor.inspect]
  split
  rename_i alive s₁ heq
  rw [heq] at hlook hback hdead
  dsimp only
  split_ifs with halive
  · exact hback.refuse _
  -- the generation that is dropped has no living process, so nobody needs to look after it
  · have hmem := (hlook.fits _ (List.mem_cons_self)).2
    refine Sound.quiet ?_ (.cancel _ g)
    refine hback.shrink rfl List.filter_sublist rfl rfl ?_ rfl rfl ?_
    · exact fun g' hg' => by simpa using (List.mem_filter.mp hg').2
    · rintro id' g' hmem' hnot ⟨i, hi, hrun⟩
      obtain rfl := hback.eq_of_mem_of_notMem_filter hmem hmem' hnot
      exact absurd hrun (hdead (Bool.eq_false_iff.mpr halive) hi)

theorem mem_shutdownOrder {ms : List Member} {i : Nat} :
    i ∈ Member.shutdownOrder ms ↔ i ∈ ms.map (·.process) := by
  simp only [Member.shutdownOrder, List.mem_map, List.mem_append, List.mem_filter]
  constructor
  · rintro ⟨m, ⟨hm, -⟩ | ⟨hm, -⟩, rfl⟩ <;> exact ⟨m, hm, rfl⟩
  · rintro ⟨m, hm, rfl⟩
    cases hproducer : m.isProducer
    · exact ⟨m, .inr ⟨hm, by simp [hproducer]⟩, rfl⟩
    · exact ⟨m, .inl ⟨hm, hproducer⟩, rfl⟩

theorem Alive.lt_length {i : Nat} (h : s.Alive i) : i < s.processes.length := by
  obtain ⟨p, hp, -⟩ := h
  exact (List.getElem?_eq_some_iff.mp hp).1

theorem crew_eq_nil (h : s.generations.length ≤ g) : s.crew g = [] := by
  rw [crew, List.getElem?_eq_none h]
  rfl

theorem Sound.gather (h : s.Sound (.cleared id :: others)) :
    s.Sound (.unwinding id (Teardown.ofMembers []) :: others) := by
  have hidle : s.Idle id := h.fits _ List.mem_cons_self
  refine h.swap rfl (fun hlock => hlock) ⟨hidle, Teardown.sure_of_current_eq_none rfl⟩ ?_ ?_
  · exact fun i hi => absurd hi List.not_mem_nil
  · exact fun g hg => absurd hg List.not_mem_nil

theorem Sound.unwind {ms ms' : List Member} (h : s.Sound (.unwinding id (Teardown.ofMembers ms) :: others))
    {env : Surroundings} {specs : List WorkerSpec} {e : Option Error}
    (hspawn : spawnAll env specs ms s = (e, ms', s')) :
    s'.Sound (.unwinding id (Teardown.ofMembers ms') :: others) := by
  obtain ⟨hgrown, hgenerations, hmembers⟩ := spawnAll_spec hspawn
  have hidle : s.Idle id := (h.fits _ List.mem_cons_self).1
  have hnone {g : Nat} (hg : s.generations.length ≤ g) : s'.crew g = [] := crew_eq_nil (hgenerations ▸ hg)
  refine h.grow hgrown rfl rfl rfl ⟨?_, Teardown.sure_of_current_eq_none rfl⟩ ?_ ?_ ?_
  · exact fun g hg => hidle g (hgrown.active ▸ hg)
  · intro g hg i hi
    rw [hnone hg] at hi
    exact absurd hi List.not_mem_nil
  · intro i hi halive
    refine .inr (mem_shutdownOrder.mpr ((hmembers i).mpr ?_))
    rcases hi with hnew | hold
    · exact .inr ⟨hnew, halive.lt_length⟩
    · exact .inl (mem_shutdownOrder.mp hold)
  · rintro g hg ⟨i, hi, -⟩
    rw [hnone hg] at hi
    exact absurd hi List.not_mem_nil

theorem Sound.found {x : Generation} (h : s.Sound (.unwinding id (Teardown.ofMembers x.members) :: others))
    (hx : x.pipeline = id) (hmembers : ∀ i ∈ x.members.map (·.process), i < s.processes.length) :
    Sound { s with generations := s.generations ++ [x] } (.enlisting id s.generations.length :: others) := by
  have hidle : s.Idle id := (h.fits _ List.mem_cons_self).1
  have hgrown : Grown s { s with generations := s.generations ++ [x] } :=
    ⟨rfl, rfl, rfl, rfl, ⟨[], (List.append_nil _).symm, fun p hp => absurd hp List.not_mem_nil⟩, ⟨[x], rfl⟩⟩
  have hnew : ({ s with generations := s.generations ++ [x] } : Supervisor).generations[s.generations.length]? =
      some x := List.getElem?_concat_length
  have hcrew : crew { s with generations := s.generations ++ [x] } s.generations.length =
      x.members.map (·.process) := by
    rw [crew, hnew]
    rfl
  have hlast {g : Nat} {i : Nat} (hg : s.generations.length ≤ g)
      (hi : i ∈ crew { s with generations := s.generations ++ [x] } g) : g = s.generations.length := by
    by_contra hne
    have hge : s.generations.length + 1 ≤ g := by omega
    rw [crew_eq_nil (by rw [List.length_append]; exact hge)] at hi
    exact absurd hi List.not_mem_nil
  refine h.grow hgrown rfl rfl rfl ⟨hidle, x, hnew, hx⟩ ?_ ?_ ?_
  · intro g hg i hi
    obtain rfl := hlast hg hi
    exact hmembers i (hcrew ▸ hi)
  · intro i hi halive
    refine .inl ⟨s.generations.length, ?_⟩
    rw [hcrew]
    rcases hi with hnew | hold
    · exact absurd halive.lt_length (not_lt.mpr hnew)
    · exact mem_shutdownOrder.mp hold
  · rintro g hg ⟨i, hi, -⟩
    exact List.mem_singleton.mpr (hlast hg hi)

theorem Sound.launch (h : s.Sound (.cleared id :: others)) (env : Surroundings) (o : StartOptions) (graph : Graph)
    (warnings : List String) (p : Plan) :
    (Supervisor.launch env s id o graph warnings p).Leads fun s' st' => s'.Sound (st' :: others) := by
  have hready (r : Registry) : Quiet s (({ s with sequence := s.sequence + 1 } : Supervisor).setRegistry r) :=
    ⟨rfl, rfl, rfl, rfl, .refl _ _⟩
  rw [Supervisor.launch]
  dsimp only
  split
  · rename_i e ms s' hspawn
    exact (h.quiet (hready _)).gather.unwind hspawn
  · rename_i ms s' hspawn
    have hmembers := (spawnAll_spec hspawn).2.2
    refine Sound.found ((h.quiet (hready _)).gather.unwind hspawn) rfl fun i hi => ?_
    exact (((hmembers i).mp hi).resolve_left List.not_mem_nil).2

theorem Sound.enlist (h : s.Sound (.enlisting id g :: others)) (hfree : s.activeHeld = false) :
    Sound { (s.modifyGeneration g fun x => { x with startedAt := s.now }) with
      active := s.active.filter (·.1 ≠ id) ++ [(id, g)] } (.marked id :: others) := by
  have hs := h.quiet (.modifyGeneration s g (f := fun x => { x with startedAt := s.now }) fun _ => rfl)
  have hidle : s.Idle id := (h.fits _ List.mem_cons_self).1
  have hsame : s.active.filter (·.1 ≠ id) = s.active := by
    refine List.filter_eq_self.mpr fun e he => ?_
    obtain ⟨id', g'⟩ := e
    simp only [decide_eq_true_eq]
    rintro rfl
    exact hidle g' he
  rw [hsame]
  exact hs.enter hfree

theorem Sound.stepStart (c : StartStage) (o : StartOptions) (env : Surroundings)
    (h : s.Sound ((Call.start id o c).stake :: others)) :
    (Supervisor.stepStart env s id o c).Leads fun s' st' => s'.Sound (st' :: others) := by
  cases c with
  | asked => exact Sound.markStarting h o
  | marked =>
      rw [Supervisor.stepStart]
      split_ifs with hheld
      · trivial
      · cases hactive : s.generation? id with
        | none => exact Sound.clear h (idle_of_generation? hactive)
        | some g => exact Sound.take h (Bool.eq_false_iff.mpr hheld) (mem_active_of_generation? hactive)
  | inspecting g =>
      rw [Supervisor.stepStart]
      split
      · split_ifs
        · trivial
        · exact Sound.inspect h o
      · exact Sound.inspect h o
  | fetching =>
      rw [Supervisor.stepStart]
      split
      · exact Sound.refuseCleared h _
      · exact h
  | validating graph =>
      rw [Supervisor.stepStart, validateAndLaunch]
      split
      · exact Sound.refuseCleared h _
      · split
        · exact Sound.refuseCleared h _
        · exact Sound.launch h env o graph _ _
  | unwinding t e =>
      obtain ⟨hidle, hsure⟩ : s.Idle id ∧ t.Sure s := h.fits _ List.mem_cons_self
      rw [Supervisor.stepStart]
      split
      · trivial
      · rename_i t' s' hnext
        have hquiet := Teardown.quiet_of_next_later hnext
        obtain ⟨hsure', -, hgone⟩ := Teardown.next_later h.honest hsure hnext
        have hleft (i : Nat) (hi : i ∈ t.processes) (halive : s'.Alive i) : i ∈ t'.processes := hgone i hi halive
        exact (h.quiet hquiet).swap rfl (fun hlock => hlock) ⟨Idle.quiet hidle hquiet, hsure'⟩ hleft
          (by simp [Call.stake, Stake.tended])
      · rename_i s' hnext
        obtain ⟨rfl, hempty⟩ := Teardown.next_finished hnext
        refine Sound.refuse (Sound.swap (h.quiet (.setRegistry _ _)) rfl (fun hlock => hlock) trivial ?_ ?_) e
        · simp [Call.stake, Stake.leftover, hempty]
        · simp [Call.stake, Stake.tended]
  | enlisting g r =>
      rw [Supervisor.stepStart]
      split_ifs with hheld
      · trivial
      · exact (Sound.enlist h (Bool.eq_false_iff.mpr hheld)).unmark

/-! ### Calls that end generations -/

/-- A call takes the generation of a pipeline out of the active ones and into its hands. -/
theorem Sound.takeOut (h : s.Sound (.nothing :: others)) (hfree : s.activeHeld = false)
    (hactive : s.generation? id = some g) :
    ((s.deactivate id).cancel g).Sound (.ending [(id, g, .joining)] :: others) := by
  have hmem := mem_active_of_generation? hactive
  refine Sound.quiet ?_ (.cancel _ g)
  refine h.shrink hfree List.filter_sublist rfl rfl ?_ rfl rfl ?_
  · intro r hr
    obtain rfl := List.mem_singleton.mp hr
    exact ⟨h.known id g hmem, trivial⟩
  · rintro id' g' hmem' hnot -
    rw [h.eq_of_mem_of_notMem_filter hmem hmem' hnot]
    exact List.mem_singleton.mpr rfl

theorem Sound.takeOutAll (h : s.Sound (.nothing :: others)) (hfree : s.activeHeld = false) :
    Sound { s with active := [] } (.ending (s.active.map fun (id, g) => (id, g, .joining)) :: others) := by
  refine h.shrink hfree (List.nil_sublist _) rfl rfl ?_ rfl rfl ?_
  · intro r hr
    obtain ⟨⟨id, g⟩, hmem, rfl⟩ := List.mem_map.mp hr
    exact ⟨h.known id g hmem, trivial⟩
  · rintro id g hmem - -
    exact List.mem_map.mpr ⟨_, List.mem_map.mpr ⟨(id, g), hmem, rfl⟩, rfl⟩

variable {runs : List (PipelineId × Nat × Takedown)} {t t' : Takedown}

theorem Sound.stepTakedown_later (h : s.Sound (.ending ((id, g, t) :: runs) :: others))
    (hstep : s.stepTakedown g t = some (some t', s')) : s'.Sound (.ending ((id, g, t') :: runs) :: others) := by
  have hfits : ∀ r ∈ (id, g, t) :: runs, s.IsOf r.2.1 r.1 ∧ s.Covers r.2.1 r.2.2 := h.fits _ List.mem_cons_self
  obtain ⟨hof, hcovers⟩ := hfits (id, g, t) List.mem_cons_self
  -- the other generations are not touched, so only the new stage of this one is to be looked at
  have hgo (hquiet : s.Quiet s') (hcovers' : s'.Covers g t') :
      s'.Sound (.ending ((id, g, t') :: runs) :: others) := by
    refine (h.quiet hquiet).swap rfl (fun hlock => hlock) (fun r hr => ?_) (by simp [Stake.leftover])
      (fun g' hg' _ => by simpa [Stake.tended] using hg')
    rcases List.mem_cons.mp hr with rfl | hr
    · exact ⟨hof.quiet hquiet, hcovers'⟩
    · obtain ⟨hof', hcovers'⟩ := hfits r (List.mem_cons_of_mem _ hr)
      exact ⟨hof'.quiet hquiet, hcovers'.quiet hquiet⟩
  obtain ⟨x, hx, -⟩ := hof
  rw [stepTakedown, hx] at hstep
  cases t with
  | joining =>
      dsimp only at hstep
      split_ifs at hstep
      obtain ⟨rfl, rfl⟩ := Prod.mk.inj (Option.some.inj hstep) |>.imp_left Option.some.inj
      exact hgo (.refl s) trivial
  | claiming =>
      dsimp only at hstep
      split_ifs at hstep
      obtain ⟨rfl, rfl⟩ := Prod.mk.inj (Option.some.inj hstep) |>.imp_left Option.some.inj
      have hquiet := Quiet.setHeld s g true
      refine hgo hquiet ⟨Teardown.sure_of_current_eq_none rfl, fun i hi _ => mem_shutdownOrder.mpr ?_⟩
      rw [hquiet.crew_eq, crew, hx] at hi
      exact hi
  | stopping t =>
      cases hnext : t.next s with
      | wait => simp [hnext] at hstep
      | finished s₁ => simp [hnext] at hstep
      | later t₁ s₁ =>
          simp only [hnext, Option.some.injEq, Prod.mk.injEq] at hstep
          obtain ⟨rfl, rfl⟩ := hstep
          have hquiet := Teardown.quiet_of_next_later hnext
          obtain ⟨hsure, -, hgone⟩ := Teardown.next_later h.honest hcovers.1 hnext
          refine hgo hquiet ⟨hsure, fun i hi halive => hgone i (hcovers.2 i ?_ (hquiet.alive halive)) halive⟩
          rwa [hquiet.crew_eq] at hi

/-- A generation that was ended has no living process. -/
theorem Sound.stepTakedown_done (h : s.Sound (.ending ((id, g, t) :: runs) :: others))
    (hstep : s.stepTakedown g t = some (none, s')) : s'.Sound (.ending runs :: others) := by
  have hfits : ∀ r ∈ (id, g, t) :: runs, s.IsOf r.2.1 r.1 ∧ s.Covers r.2.1 r.2.2 := h.fits _ List.mem_cons_self
  obtain ⟨⟨x, hx, -⟩, hcovers⟩ := hfits (id, g, t) List.mem_cons_self
  rw [stepTakedown, hx] at hstep
  cases t with
  | joining =>
      dsimp only at hstep
      split_ifs at hstep
      simp at hstep
  | claiming =>
      dsimp only at hstep
      split_ifs at hstep
      simp at hstep
  | stopping t =>
      cases hnext : t.next s with
      | wait => simp [hnext] at hstep
      | later t₁ s₁ => simp [hnext] at hstep
      | finished s₁ =>
          simp only [hnext, Option.some.injEq, Prod.mk.injEq, true_and] at hstep
          obtain ⟨rfl, hempty⟩ := Teardown.next_finished hnext
          subst hstep
          suffices hrest : s₁.Sound (.ending runs :: others) from hrest.quiet (.setHeld s₁ g false)
          refine h.swap rfl (fun hlock => hlock) (fun r hr => hfits r (List.mem_cons_of_mem _ hr))
            (by simp [Stake.leftover]) ?_
          rintro g' hg' ⟨i, hi, halive⟩
          rcases List.mem_cons.mp hg' with rfl | hg'
          · have hmem := hcovers.2 i hi halive
            rw [hempty] at hmem
            exact absurd hmem List.not_mem_nil
          · exact hg'

theorem Sound.ended (h : s.Sound (.ending [] :: others)) : s.Sound (.nothing :: others) :=
  h.swap rfl (fun hlock => hlock) trivial (by simp [Stake.leftover]) (by simp [Stake.tended])

theorem Sound.stepStop (c : StopStage) (h : s.Sound ((Call.stop id c).stake :: others)) :
    (s.stepStop id c).Leads fun s' st' => s'.Sound (st' :: others) := by
  cases c with
  | asked =>
      rw [Supervisor.stepStop]
      split_ifs with hheld
      · trivial
      · cases hactive : s.generation? id with
        | none => exact h
        | some g => exact Sound.takeOut h (Bool.eq_false_iff.mpr hheld) hactive
  | ending g t =>
      rw [Supervisor.stepStop]
      split
      · trivial
      · rename_i t' s' hstep
        exact Sound.stepTakedown_later h hstep
      · rename_i s' hstep
        have hended := (Sound.stepTakedown_done h hstep).ended
        dsimp only [concludeStop]
        split_ifs
        · exact (hended.quiet (.setRegistry _ _)).quiet (.publish _ _)
        · exact hended.quiet (.setRegistry _ _)

theorem quiet_concludeAbort (s : Supervisor) (id : PipelineId) (moved : Bool) :
    s.Quiet (s.concludeAbort id moved).2 := by
  rw [Supervisor.concludeAbort]
  split_ifs
  · exact .publish _ _
  · exact .refl s

theorem Sound.concludeAbort (h : s.Sound (.nothing :: others)) (moved : Bool) :
    (s.concludeAbort id moved).2.Sound (.nothing :: others) := h.quiet (quiet_concludeAbort s id moved)

theorem Sound.stepAbort (c : AbortStage) (h : s.Sound ((Call.abort id c).stake :: others)) :
    (s.stepAbort id c).Leads fun s' st' => s'.Sound (st' :: others) := by
  cases c with
  | asked => exact Sound.quiet h (.setRegistry _ _)
  | marked moved =>
      rw [Supervisor.stepAbort]
      split_ifs with hheld
      · trivial
      · cases hactive : s.generation? id with
        | some g => exact Sound.takeOut h (Bool.eq_false_iff.mpr hheld) hactive
        | none =>
            dsimp only
            split
            · exact h
            · exact Sound.concludeAbort h moved
  | ending moved g t =>
      rw [Supervisor.stepAbort]
      split
      · trivial
      · rename_i t' s' hstep
        exact Sound.stepTakedown_later h hstep
      · rename_i s' hstep
        exact ((Sound.stepTakedown_done h hstep).ended).concludeAbort moved

theorem Sound.stepShutdownAll (c : ShutdownStage) (h : s.Sound ((Call.shutdownAll c).stake :: others)) :
    (s.stepShutdownAll c).Leads fun s' st' => s'.Sound (st' :: others) := by
  cases c with
  | asked =>
      rw [Supervisor.stepShutdownAll]
      split_ifs with hheld
      · trivial
      · have hout := Sound.takeOutAll h (Bool.eq_false_iff.mpr hheld)
        split
        · exact h
        · rename_i id g rest hactive
          rw [hactive] at hout
          exact hout.quiet (.cancel _ g)
  | ending all t =>
      cases all with
      | nil => exact h
      | cons run rest =>
          obtain ⟨id, g⟩ := run
          rw [Supervisor.stepShutdownAll]
          split
          · trivial
          · rename_i t' s' hstep
            exact Sound.stepTakedown_later h hstep
          · rename_i s' hstep
            have hdone := (Sound.stepTakedown_done h hstep).quiet
              (.setRegistry s' (s'.registry.abort id "Supervisor shut down").2)
            cases rest with
            | nil => exact hdone.ended
            | cons next rest => exact hdone.quiet (.cancel _ next.2)

theorem Sound.step (env : Surroundings) (c : Call) (h : s.Sound (c.stake :: others)) :
    (s.step env c).Leads fun s' st' => s'.Sound (st' :: others) := by
  cases c with
  | start id o stage => exact Sound.stepStart stage o env h
  | stop id stage => exact Sound.stepStop stage h
  | abort id stage => exact Sound.stepAbort stage h
  | shutdownAll stage => exact Sound.stepShutdownAll stage h
  | status id run =>
      rw [Supervisor.step]
      cases run with
      | none => exact h
      | some run =>
          rw [Supervisor.stepStatus]
          split_ifs
          · trivial
          · exact Sound.quiet h (.report s id run)

end Supervisor

end Pipeworks
