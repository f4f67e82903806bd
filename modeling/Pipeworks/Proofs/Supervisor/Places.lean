import Pipeworks.Proofs.Supervisor.Effects
import Pipeworks.Proofs.Supervisor.Generations
import Mathlib.Data.List.Perm.Subperm

/-!
Where generations and processes are. A generation that is looked after stands in one place, among the active ones or in
the hands of one call, and its monitor was cancelled unless it is active, is about to be entered, or waits for its turn
in a shutdown. A process belongs to one generation, or is in the hands of one start.
-/

namespace Pipeworks

def Stake.spared : Stake → List Nat
  | enlisting _ g => [g]
  | ending runs => (runs.map (·.2.1)).tail
  | _ => []

theorem Stake.spared_subset_tended (st : Stake) : st.spared ⊆ st.tended := by
  cases st with
  | ending runs => exact fun _ hg => List.mem_of_mem_tail hg
  | enlisting id g => exact List.Subset.refl _
  | _ => exact List.nil_subset _

theorem Stake.spared_eq_nil {st : Stake} (h : st.tended = []) : st.spared = [] :=
  List.subset_nil.mp (h ▸ st.spared_subset_tended)

namespace Supervisor

variable {s s' : Supervisor} {st st' : Stake} {stakes others : List Stake} {id : PipelineId} {g : Nat}

def flags (s : Supervisor) : List Bool := s.generations.map (·.cancelled)

def tendedBy (s : Supervisor) (stakes : List Stake) : List Nat :=
  s.active.map (·.2) ++ stakes.flatMap Stake.tended

def sparedBy (s : Supervisor) (stakes : List Stake) : List Nat :=
  s.active.map (·.2) ++ stakes.flatMap Stake.spared

/-- A generation stands in one place, and its place tells whether its monitor was cancelled. -/
structure Placed (s : Supervisor) (stakes : List Stake) : Prop where
  once : (s.tendedBy stakes).Nodup
  known : ∀ g ∈ s.tendedBy stakes, g < s.generations.length
  spared_iff : ∀ g, s.flags[g]? = some false ↔ g ∈ s.sparedBy stakes

namespace Placed

theorem perm {stakes' : List Stake} (h : s.Placed stakes) (hp : stakes.Perm stakes') : s.Placed stakes' := by
  have htended : (s.tendedBy stakes).Perm (s.tendedBy stakes') := (hp.flatMap_right _).append_left _
  have hspared : (s.sparedBy stakes).Perm (s.sparedBy stakes') := (hp.flatMap_right _).append_left _
  refine ⟨htended.nodup_iff.mp h.once, fun g hg => h.known g (htended.mem_iff.mpr hg), fun g => ?_⟩
  rw [h.spared_iff g, hspared.mem_iff]

/-- Generations may go out of care, if that does not concern those that nobody has begun to end. -/
theorem keep {stakes' : List Stake} (h : s.Placed stakes) (hflags : s'.flags = s.flags)
    (htended : (s'.tendedBy stakes').Subperm (s.tendedBy stakes))
    (hspared : ∀ g, g ∈ s'.sparedBy stakes' ↔ g ∈ s.sparedBy stakes) : s'.Placed stakes' := by
  have hlength : s'.generations.length = s.generations.length := by
    have := congrArg List.length hflags
    rwa [flags, flags, List.length_map, List.length_map] at this
  obtain ⟨kept, hperm, hsub⟩ := htended
  refine ⟨hperm.nodup_iff.mp (h.once.sublist hsub), fun g hg => ?_, fun g => ?_⟩
  · rw [hlength]
    exact h.known g (hsub.subset (hperm.mem_iff.mpr hg))
  · rw [hflags, hspared g]
    exact h.spared_iff g

theorem cancel {stakes' : List Stake} (h : s.Placed stakes) (hflags : s'.flags = s.flags)
    (htended : (s'.tendedBy stakes').Subperm (s.tendedBy stakes))
    (hspared : ∀ g', g' ∈ s'.sparedBy stakes' ↔ g' ∈ s.sparedBy stakes ∧ g' ≠ g) : (s'.cancel g).Placed stakes' := by
  have hcancelled (g' : Nat) : (s'.cancel g).flags[g']? = some false ↔ s.flags[g']? = some false ∧ g' ≠ g := by
    rw [← hflags]
    change ((s'.generations.modify g _).map _)[g']? = _ ↔ (s'.generations.map _)[g']? = _ ∧ _
    rw [List.getElem?_map, List.getElem?_map, List.getElem?_modify]
    by_cases hg : g = g'
    · subst hg
      cases s'.generations[g]? <;> simp
    · cases s'.generations[g']? <;> simp [hg, Ne.symm hg]
  have hlength : s'.generations.length = s.generations.length := by
    have := congrArg List.length hflags
    rwa [flags, flags, List.length_map, List.length_map] at this
  obtain ⟨kept, hperm, hsub⟩ := htended
  refine ⟨hperm.nodup_iff.mp (h.once.sublist hsub), fun g' hg' => ?_, fun g' => ?_⟩
  · change g' < (s'.generations.modify g _).length
    rw [List.length_modify, hlength]
    exact h.known g' (hsub.subset (hperm.mem_iff.mpr hg'))
  · rw [hcancelled, h.spared_iff g']
    exact (hspared g').symm

theorem swap (h : s.Placed (st :: others)) (hflags : s'.flags = s.flags) (hactive : s'.active = s.active)
    (htended : st'.tended = st.tended) (hspared : st'.spared = st.spared) : s'.Placed (st' :: others) := by
  refine h.keep hflags ?_ fun g => ?_
  · rw [tendedBy, tendedBy, List.flatMap_cons, List.flatMap_cons, hactive, htended]
  · rw [sparedBy, sparedBy, List.flatMap_cons, List.flatMap_cons, hactive, hspared]

theorem add (h : s.Placed (st :: others)) {x : Generation} (hgenerations : s'.generations = s.generations ++ [x])
    (hfresh : x.cancelled = false) (hactive : s'.active = s.active) (htended : st.tended = [])
    (hnew : st' = .enlisting id s.generations.length) : s'.Placed (st' :: others) := by
  subst hnew
  have hbefore : s.tendedBy (st :: others) = s.active.map (·.2) ++ others.flatMap Stake.tended := by
    rw [tendedBy, List.flatMap_cons, htended, List.nil_append]
  have hafter : (s'.tendedBy (.enlisting id s.generations.length :: others)).Perm
      (s.generations.length :: s.tendedBy (st :: others)) := by
    rw [tendedBy, List.flatMap_cons, hactive, hbefore]
    exact List.perm_middle
  refine ⟨hafter.nodup_iff.mpr (List.nodup_cons.mpr ⟨fun hmem => ?_, h.once⟩), fun g hg => ?_, fun g => ?_⟩
  · exact Nat.lt_irrefl _ (h.known _ hmem)
  · rw [hgenerations, List.length_append, List.length_singleton]
    rcases List.mem_cons.mp (hafter.mem_iff.mp hg) with rfl | hg
    · omega
    · have hlt := h.known g hg
      omega
  · have hspared : g ∈ s'.sparedBy (.enlisting id s.generations.length :: others) ↔
        g = s.generations.length ∨ g ∈ s.sparedBy (st :: others) := by
      have hbefore : s.sparedBy (st :: others) = s.active.map (·.2) ++ others.flatMap Stake.spared := by
        rw [sparedBy, List.flatMap_cons, Stake.spared_eq_nil htended, List.nil_append]
      rw [hbefore, sparedBy, List.flatMap_cons, hactive]
      exact List.perm_middle.mem_iff.trans List.mem_cons
    have hflag : s'.flags = s.flags ++ [false] := by
      rw [flags, flags, hgenerations, List.map_append, List.map_singleton, hfresh]
    have hcount : s.flags.length = s.generations.length := List.length_map _
    rw [hspared, ← h.spared_iff g, hflag]
    rcases Nat.lt_trichotomy g s.generations.length with hlt | rfl | hgt
    · rw [List.getElem?_append_left (hcount ▸ hlt)]
      exact ⟨.inr, fun hg => hg.resolve_left (Nat.ne_of_lt hlt)⟩
    · rw [← hcount, List.getElem?_concat_length]
      exact ⟨fun _ => .inl rfl, fun _ => rfl⟩
    · have hnone : (s.flags ++ [false])[g]? = none := by
        rw [List.getElem?_eq_none_iff, List.length_append, List.length_singleton, hcount]
        exact hgt
      rw [hnone, List.getElem?_eq_none (by omega)]
      exact ⟨fun hg => absurd hg (by simp), fun hg => absurd hg (by simp; omega)⟩

/-- The place of an active generation is nowhere else. -/
theorem mem_deactivate (h : s.Placed (st :: others)) (hkeys : (s.active.map (·.1)).Nodup) (hmem : (id, g) ∈ s.active)
    (g' : Nat) : g' ∈ (s.active.filter (·.1 ≠ id)).map (·.2) ↔ g' ∈ s.active.map (·.2) ∧ g' ≠ g := by
  have hplaces : (s.active.map (·.2)).Nodup := (List.nodup_append.mp h.once).1
  simp only [List.mem_map, List.mem_filter, decide_eq_true_eq]
  constructor
  · rintro ⟨⟨id', g''⟩, ⟨hactive, hne⟩, rfl⟩
    refine ⟨⟨(id', g''), hactive, rfl⟩, ?_⟩
    rintro rfl
    exact hne (congrArg Prod.fst (List.inj_on_of_nodup_map hplaces hactive hmem rfl))
  · rintro ⟨⟨⟨id', g''⟩, hactive, rfl⟩, hne⟩
    refine ⟨(id', g''), ⟨hactive, ?_⟩, rfl⟩
    rintro rfl
    exact hne (congrArg Prod.snd (List.inj_on_of_nodup_map hkeys hactive hmem rfl))

theorem notMem_spared (h : s.Placed (st :: others)) (hmem : (id, g) ∈ s.active) :
    g ∉ others.flatMap Stake.spared := by
  intro hg
  obtain ⟨other, hother, hg⟩ := List.mem_flatMap.mp hg
  have htended : g ∈ (st :: others).flatMap Stake.tended :=
    List.mem_flatMap.mpr ⟨other, List.mem_cons_of_mem _ hother, other.spared_subset_tended hg⟩
  exact (List.nodup_append.mp h.once).2.2 g (List.mem_map_of_mem hmem) g htended rfl

theorem takeOut (h : s.Placed (st :: others)) (hkeys : (s.active.map (·.1)).Nodup) (hmem : (id, g) ∈ s.active)
    (hflags : s'.flags = s.flags) (hactive : s'.active = s.active.filter (·.1 ≠ id)) (hfree : st.tended = [])
    (htended : st'.tended.Sublist [g]) (hspared : st'.spared = []) :
    (s'.cancel g).Placed (st' :: others) := by
  have hfilter := h.mem_deactivate hkeys hmem
  refine h.cancel hflags ?_ fun g' => ?_
  · -- what is left of the active ones and the one that was taken out are the active ones
    have hperm : (g :: (s.active.filter (·.1 ≠ id)).map (·.2)).Perm (s.active.map (·.2)) := by
      have hplaces : (s.active.map (·.2)).Nodup := (List.nodup_append.mp h.once).1
      refine (List.perm_ext_iff_of_nodup (List.nodup_cons.mpr ⟨fun hg => ((hfilter g).mp hg).2 rfl, ?_⟩) hplaces).mpr
        fun g' => ?_
      · exact hplaces.sublist (List.filter_sublist.map _)
      · rw [List.mem_cons, hfilter g']
        constructor
        · rintro (rfl | hg')
          · exact List.mem_map_of_mem hmem
          · exact hg'.1
        · intro hg'
          by_cases heq : g' = g
          · exact .inl heq
          · exact .inr ⟨hg', heq⟩
    rw [tendedBy, tendedBy, List.flatMap_cons, List.flatMap_cons, hactive, hfree, List.nil_append]
    have hsub : ((s.active.filter (·.1 ≠ id)).map (·.2) ++ (st'.tended ++ others.flatMap Stake.tended)).Sublist
        ((s.active.filter (·.1 ≠ id)).map (·.2) ++ ([g] ++ others.flatMap Stake.tended)) :=
      (htended.append_right _).append_left _
    refine hsub.subperm.trans (List.Perm.subperm ?_)
    exact List.perm_middle.trans (hperm.append_right _)
  · simp only [sparedBy, List.flatMap_cons, hspared, Stake.spared_eq_nil hfree, List.nil_append, List.mem_append, hactive,
      hfilter g']
    have hnot := h.notMem_spared hmem
    constructor
    · rintro (⟨hg', hne⟩ | hg')
      · exact ⟨.inl hg', hne⟩
      · exact ⟨.inr hg', fun heq => hnot (heq ▸ hg')⟩
    · rintro ⟨hg' | hg', hne⟩
      · exact .inl ⟨hg', hne⟩
      · exact .inr hg'

end Placed

theorem flags_modifyGeneration (s : Supervisor) (g : Nat) {f : Generation → Generation}
    (hf : ∀ x, (f x).cancelled = x.cancelled) : (s.modifyGeneration g f).flags = s.flags := by
  apply List.ext_getElem?
  intro j
  change ((s.generations.modify g f).map (·.cancelled))[j]? = (s.generations.map (·.cancelled))[j]?
  rw [List.getElem?_map, List.getElem?_map, List.getElem?_modify]
  cases s.generations[j]? with
  | none => rfl
  | some x =>
      change some (if g = j then f x else x).cancelled = some x.cancelled
      split_ifs
      · rw [hf]
      · rfl

theorem flags_stepTakedown {t : Takedown} {t' : Option Takedown} (h : s.stepTakedown g t = some (t', s')) :
    s'.flags = s.flags ∧ s'.active = s.active := by
  obtain ⟨ps, rfl⟩ | ⟨held, rfl⟩ := stepTakedown_cases h
  · exact ⟨rfl, rfl⟩
  · exact ⟨flags_modifyGeneration s g fun _ => rfl, rfl⟩

theorem Placed.enlist (h : s.Placed (.enlisting id g :: others)) (hidle : s.Idle id) (hflags : s'.flags = s.flags)
    (hactive : s'.active = s.active.filter (·.1 ≠ id) ++ [(id, g)]) : s'.Placed (.nothing :: others) := by
  have hsame : s.active.filter (·.1 ≠ id) = s.active := by
    refine List.filter_eq_self.mpr fun run hrun => ?_
    obtain ⟨id', g'⟩ := run
    simp only [decide_eq_true_eq]
    rintro rfl
    exact hidle g' hrun
  rw [hsame] at hactive
  have htended : s'.tendedBy (.nothing :: others) = s.tendedBy (.enlisting id g :: others) := by
    simp [tendedBy, hactive, Stake.tended]
  have hspared : s'.sparedBy (.nothing :: others) = s.sparedBy (.enlisting id g :: others) := by
    simp [sparedBy, hactive, Stake.spared]
  exact h.keep hflags (htended ▸ .refl _) fun g' => by rw [hspared]

/-- A shutdown takes all generations out, and cancels the monitor of the first one. -/
theorem Placed.takeOutAll {rest : List (PipelineId × Nat)} (h : s.Placed (.nothing :: others))
    (hactive : s.active = (id, g) :: rest) :
    (({ s with active := [] } : Supervisor).cancel g).Placed
      ((Call.shutdownAll (.ending ((id, g) :: rest) .joining)).stake :: others) := by
  have honce := h.once
  have htended : tendedBy { s with active := [] } ((Call.shutdownAll (.ending ((id, g) :: rest) .joining)).stake :: others)
      = s.tendedBy (.nothing :: others) := by
    simp [tendedBy, hactive, Call.stake, Stake.tended]
  refine h.cancel rfl (htended ▸ .refl _) fun g' => ?_
  have hbefore : s.sparedBy (.nothing :: others) = g :: (rest.map (·.2) ++ others.flatMap Stake.spared) := by
    simp [sparedBy, hactive, Stake.spared]
  have hafter : sparedBy { s with active := [] } ((Call.shutdownAll (.ending ((id, g) :: rest) .joining)).stake :: others)
      = rest.map (·.2) ++ others.flatMap Stake.spared := by
    simp [sparedBy, Call.stake, Stake.spared]
  have hnot : g ∉ rest.map (·.2) ++ others.flatMap Stake.spared := by
    rw [tendedBy, hactive, List.map_cons, List.cons_append, List.nodup_cons, List.flatMap_cons, Stake.tended_nothing,
      List.nil_append] at honce
    intro hg
    refine honce.1 ?_
    rcases List.mem_append.mp hg with hg | hg
    · exact List.mem_append_left _ hg
    · obtain ⟨other, hother, hg⟩ := List.mem_flatMap.mp hg
      exact List.mem_append_right _ (List.mem_flatMap.mpr ⟨other, hother, other.spared_subset_tended hg⟩)
  rw [hbefore, hafter, List.mem_cons]
  constructor
  · intro hg
    exact ⟨.inr hg, fun heq => hnot (heq ▸ hg)⟩
  · rintro ⟨hg, hne⟩
    exact hg.resolve_left hne

/-- The first of the generations in the hands of a call is done with, and the monitor of the next one is cancelled. -/
theorem Placed.goOn {id' : PipelineId} {g' : Nat} {t t' : Takedown} {runs : List (PipelineId × Nat × Takedown)}
    (h : s.Placed (.ending ((id, g, t) :: (id', g', t') :: runs) :: others)) (hflags : s'.flags = s.flags)
    (hactive : s'.active = s.active) : (s'.cancel g').Placed (.ending ((id', g', t') :: runs) :: others) := by
  have honce := h.once
  refine h.cancel hflags ?_ fun g'' => ?_
  · rw [tendedBy, tendedBy, hactive, List.flatMap_cons, List.flatMap_cons]
    exact (((List.sublist_cons_self _ _).append_right _).append_left _).subperm
  · have hnot : g' ∉ s.active.map (·.2) ++ (runs.map (·.2.1) ++ others.flatMap Stake.spared) := by
      have hmiddle : (s.active.map (·.2) ++ g :: g' :: (runs.map (·.2.1) ++ others.flatMap Stake.tended)).Nodup := by
        simpa [tendedBy, Stake.tended] using honce
      have hfirst := (List.nodup_cons.mp (List.perm_middle.nodup_iff.mp
        (List.nodup_cons.mp (List.perm_middle.nodup_iff.mp hmiddle)).2)).1
      intro hg
      refine hfirst ?_
      rcases List.mem_append.mp hg with hg | hg
      · exact List.mem_append_left _ hg
      · refine List.mem_append_right _ ?_
        rcases List.mem_append.mp hg with hg | hg
        · exact List.mem_append_left _ hg
        · obtain ⟨other, hother, hg⟩ := List.mem_flatMap.mp hg
          exact List.mem_append_right _ (List.mem_flatMap.mpr ⟨other, hother, other.spared_subset_tended hg⟩)
    have hafter : s'.sparedBy (.ending ((id', g', t') :: runs) :: others) =
        s.active.map (·.2) ++ (runs.map (·.2.1) ++ others.flatMap Stake.spared) := by
      simp [sparedBy, hactive, Stake.spared]
    have hbefore : (s.sparedBy (.ending ((id, g, t) :: (id', g', t') :: runs) :: others)).Perm
        (g' :: (s.active.map (·.2) ++ (runs.map (·.2.1) ++ others.flatMap Stake.spared))) := by
      rw [sparedBy, List.flatMap_cons]
      exact List.perm_middle
    rw [hafter, hbefore.mem_iff, List.mem_cons]
    constructor
    · intro hg
      exact ⟨.inr hg, fun heq => hnot (heq ▸ hg)⟩
    · rintro ⟨hg, hne⟩
      exact hg.resolve_left hne

/-- Every step of a call leaves generations in their places or moves them to others. -/
theorem Effect.placed {c : Call} {c' : Option Call} (he : Effect s c s' c') (hsound : s.Sound (c.stake :: others))
    (h : s.Placed (c.stake :: others)) : s'.Placed (Call.left c' :: others) := by
  have hkeys := hsound.keys
  have hfits : s.Fits c.stake := hsound.fits _ List.mem_cons_self
  cases he with
  | looks hlooks hfree hfree' _ =>
      exact h.swap (congrArg (·.map (·.cancelled)) hlooks.generations) hlooks.active
        (hfree'.tended.trans hfree.tended.symm)
        ((Stake.spared_eq_nil hfree'.tended).trans (Stake.spared_eq_nil hfree.tended).symm)
  | refused hcleared =>
      rw [hcleared] at h
      exact h.swap rfl rfl rfl rfl
  | @released id o g s₁ hlooks =>
      have hactive : (s₁.deactivate id).active = s.active.filter (·.1 ≠ id) :=
        congrArg (·.filter (·.1 ≠ id)) hlooks.active
      exact h.takeOut hkeys hfits.2 (congrArg (·.map (·.cancelled)) hlooks.generations) hactive rfl
        (List.nil_sublist _) rfl
  | unwound hspawn =>
      obtain ⟨hgrown, hgenerations, -⟩ := spawnAll_spec hspawn
      exact h.swap (congrArg (·.map (·.cancelled)) hgenerations) hgrown.active rfl rfl
  | @launched env id o graph report p tag ms r s' hvalid hplan hspawn =>
      obtain ⟨hgrown, hgenerations, -⟩ := spawnAll_spec hspawn
      have hnew : Call.left (some (.start id o (.enlisting s'.generations.length r))) =
          .enlisting id s.generations.length := congrArg (Stake.enlisting id) (congrArg List.length hgenerations)
      exact h.add (congrArg (· ++ [_]) hgenerations) rfl hgrown.active rfl hnew
  | unwinds hnext =>
      obtain ⟨ps, rfl⟩ := eq_of_next_later hnext
      exact h.swap rfl rfl rfl rfl
  | failed hempty => exact h.swap rfl rfl rfl rfl
  | @enlisted id o g r hfree => exact h.enlist hfits.1 (flags_modifyGeneration s g fun _ => rfl) rfl
  | taken hfree hactive hcalls =>
      have hmem := mem_active_of_generation? hactive
      obtain ⟨rfl, rfl⟩ | ⟨moved, rfl, rfl⟩ := hcalls <;>
        exact h.takeOut hkeys hmem rfl rfl rfl (List.Sublist.refl _) rfl
  | takenAll hfree hactive => exact h.takeOutAll hactive
  | aborted => exact h.swap rfl rfl rfl rfl
  | @goesOn c c' id g t t' runs s' hstake hstake' _ hstep =>
      obtain ⟨hflags, hactive⟩ := flags_stepTakedown hstep
      rw [hstake] at h
      rw [Call.left, hstake']
      exact h.swap hflags hactive rfl rfl
  | @ended c id g t s₁ bus hstake hstep _ _ =>
      obtain ⟨hflags, hactive⟩ := flags_stepTakedown hstep
      rw [hstake] at h
      have hkept : s₁.Placed (.nothing :: others) := by
        refine h.keep hflags ?_ fun g' => ?_
        · rw [tendedBy, tendedBy, hactive, List.flatMap_cons, List.flatMap_cons]
          exact (((List.nil_sublist _).append_right _).append_left _).subperm
        · rw [sparedBy, sparedBy, hactive]
          exact Iff.rfl
      exact hkept.swap rfl rfl rfl rfl
  | next hstep =>
      obtain ⟨hflags, hactive⟩ := flags_stepTakedown hstep
      exact h.goOn hflags hactive

end Supervisor

end Pipeworks
