import Pipeworks.Proofs.Supervisor.Quiet
import Mathlib.Data.List.Nodup

/-!
Who is responsible for the processes of a supervisor. Every living process belongs to a generation or to a start that
could not start all of its processes; and every generation with a living process is active, is about to be entered
by the start that made it, or is being ended by a call that took it out of the active ones. What a call has in its
hands is its stake. The invariant relates the state of the supervisor to the stakes of all calls under way, and one
step of a call changes its own stake and what goes with it.
-/

namespace Pipeworks

/-- What a call under way has in its hands. -/
inductive Stake where
  | nothing
  /-- The pipeline is marked as starting. -/
  | marked (id : PipelineId)
  /-- It holds the active pipelines and looks at the generation that is active for its own. -/
  | inspecting (id : PipelineId) (g : Nat)
  /-- It found that its pipeline is not active. -/
  | cleared (id : PipelineId)
  | unwinding (id : PipelineId) (t : Teardown)
  | enlisting (id : PipelineId) (g : Nat)
  /-- Generations that were active and are to be ended. -/
  | ending (runs : List (PipelineId × Nat × Takedown))

namespace Stake

def mark? : Stake → Option PipelineId
  | marked id => some id
  | inspecting id _ => some id
  | cleared id => some id
  | unwinding id _ => some id
  | enlisting id _ => some id
  | _ => none

def holdsLock : Stake → Bool
  | inspecting _ _ => true
  | _ => false

def leftover : Stake → List Nat
  | unwinding _ t => t.processes
  | _ => []

def tended : Stake → List Nat
  | enlisting _ g => [g]
  | ending runs => runs.map (·.2.1)
  | _ => []

@[simp] theorem leftover_nothing : nothing.leftover = [] := rfl

@[simp] theorem leftover_marked (id : PipelineId) : (marked id).leftover = [] := rfl

@[simp] theorem leftover_cleared (id : PipelineId) : (cleared id).leftover = [] := rfl

@[simp] theorem leftover_inspecting (id : PipelineId) (g : Nat) : (inspecting id g).leftover = [] := rfl

@[simp] theorem leftover_enlisting (id : PipelineId) (g : Nat) : (enlisting id g).leftover = [] := rfl

@[simp] theorem tended_nothing : nothing.tended = [] := rfl

@[simp] theorem tended_marked (id : PipelineId) : (marked id).tended = [] := rfl

@[simp] theorem tended_cleared (id : PipelineId) : (cleared id).tended = [] := rfl

@[simp] theorem tended_inspecting (id : PipelineId) (g : Nat) : (inspecting id g).tended = [] := rfl

end Stake

def Call.stake : Call → Stake
  | .start id _ .marked => .marked id
  | .start id _ (.inspecting g) => .inspecting id g
  | .start id _ .fetching => .cleared id
  | .start id _ (.validating _) => .cleared id
  | .start id _ (.unwinding t _) => .unwinding id t
  | .start id _ (.enlisting g _) => .enlisting id g
  | .stop id (.ending g t) => .ending [(id, g, t)]
  | .abort id (.ending _ g t) => .ending [(id, g, t)]
  | .shutdownAll (.ending ((id, g) :: rest) t) =>
    .ending ((id, g, t) :: rest.map fun (id, g) => (id, g, .joining))
  | _ => .nothing

namespace Supervisor

def Idle (s : Supervisor) (id : PipelineId) : Prop := ∀ g, (id, g) ∉ s.active

def IsOf (s : Supervisor) (g : Nat) (id : PipelineId) : Prop := ∃ x, s.generations[g]? = some x ∧ x.pipeline = id

/-- A takedown that has begun to stop processes has in its list all that are alive. -/
def Covers (s : Supervisor) (g : Nat) : Takedown → Prop
  | .stopping t => t.Sure s ∧ ∀ i ∈ s.crew g, s.Alive i → i ∈ t.processes
  | _ => True

def Fits (s : Supervisor) : Stake → Prop
  | .nothing => True
  | .marked _ => True
  | .inspecting id g => s.activeHeld = true ∧ (id, g) ∈ s.active
  | .cleared id => s.Idle id
  | .unwinding id t => s.Idle id ∧ t.Sure s
  | .enlisting id g => s.Idle id ∧ s.IsOf g id
  | .ending runs => ∀ r ∈ runs, s.IsOf r.2.1 r.1 ∧ s.Covers r.2.1 r.2.2

structure Sound (s : Supervisor) (stakes : List Stake) : Prop where
  honest : s.Honest
  keys : (s.active.map (·.1)).Nodup
  known : ∀ id g, (id, g) ∈ s.active → s.IsOf g id
  marks : (stakes.filterMap Stake.mark?).Nodup
  starting : ∀ id, id ∈ s.starting ↔ id ∈ stakes.filterMap Stake.mark?
  lock : (stakes.filter Stake.holdsLock).length ≤ 1
  fits : ∀ st ∈ stakes, s.Fits st
  bounded : ∀ g, ∀ i ∈ s.crew g, i < s.processes.length
  owned : ∀ i, s.Alive i → (∃ g, i ∈ s.crew g) ∨ ∃ st ∈ stakes, i ∈ st.leftover
  tended : ∀ g, (∃ i ∈ s.crew g, s.Alive i) → (∃ id, (id, g) ∈ s.active) ∨ ∃ st ∈ stakes, g ∈ st.tended

variable {s s' : Supervisor} {st st' : Stake} {stakes others : List Stake} {id : PipelineId} {g : Nat}

/-! ### The invariant and quiet steps -/

theorem IsOf.quiet (h : s.IsOf g id) (hq : s.Quiet s') : s'.IsOf g id := by
  obtain ⟨x, hx, hid⟩ := h
  have hg := congrArg (·[g]?) hq.crews
  simp only [List.getElem?_map, hx, Option.map_some] at hg
  obtain ⟨y, hy, hcrew⟩ := Option.map_eq_some_iff.mp hg
  exact ⟨y, hy, (congrArg Prod.fst hcrew).trans hid⟩

theorem Covers.quiet {t : Takedown} (h : s.Covers g t) (hq : s.Quiet s') : s'.Covers g t := by
  cases t with
  | joining => trivial
  | claiming => trivial
  | stopping t =>
      refine ⟨h.1.quiet hq, fun i hi halive => h.2 i ?_ (hq.alive halive)⟩
      rwa [hq.crew_eq] at hi

theorem Idle.quiet (h : s.Idle id) (hq : s.Quiet s') : s'.Idle id := fun g hg => h g (hq.active ▸ hg)

/-- What a call has in its hands fits another state as well, if its own pipeline stays idle, processes that are gone
stay gone, and no generation changes hands. -/
theorem Fits.map (h : s.Fits st)
    (hlock : st.holdsLock = true → s.activeHeld = true → s'.activeHeld = true ∧ s.active ⊆ s'.active)
    (hidle : ∀ id, st.mark? = some id → s.Idle id → s'.Idle id) (hsure : ∀ t : Teardown, t.Sure s → t.Sure s')
    (hof : ∀ g id, s.IsOf g id → s'.IsOf g id)
    (hcovers : ∀ g id t, s.IsOf g id → s.Covers g t → s'.Covers g t) : s'.Fits st := by
  cases st with
  | nothing => trivial
  | marked id => trivial
  | inspecting id g =>
      obtain ⟨hheld, hsub⟩ := hlock rfl h.1
      exact ⟨hheld, hsub h.2⟩
  | cleared id => exact hidle id rfl h
  | unwinding id t => exact ⟨hidle id rfl h.1, hsure t h.2⟩
  | enlisting id g => exact ⟨hidle id rfl h.1, hof g id h.2⟩
  | ending runs =>
      intro r hr
      obtain ⟨hrof, hrcovers⟩ := h r hr
      exact ⟨hof _ _ hrof, hcovers _ _ _ hrof hrcovers⟩

theorem Fits.quiet (h : s.Fits st) (hq : s.Quiet s') : s'.Fits st :=
  h.map (fun _ hheld => ⟨hq.activeHeld.trans hheld, hq.active ▸ List.Subset.refl _⟩)
    (fun _ _ hidle => Idle.quiet hidle hq) (fun _ hsure => hsure.quiet hq) (fun _ _ hof => hof.quiet hq)
    (fun _ _ _ _ hcovers => hcovers.quiet hq)

theorem Quiet.length_processes (h : s.Quiet s') : s'.processes.length = s.processes.length := h.aged.length_eq

theorem Sound.quiet (h : s.Sound stakes) (hq : s.Quiet s') : s'.Sound stakes where
  honest := hq.honest h.honest
  keys := hq.active ▸ h.keys
  known id g hg := (h.known id g (hq.active ▸ hg)).quiet hq
  marks := h.marks
  starting := hq.starting ▸ h.starting
  lock := h.lock
  fits st hst := (h.fits st hst).quiet hq
  bounded g i hi := by
    rw [hq.crew_eq] at hi
    rw [hq.length_processes]
    exact h.bounded g i hi
  owned i hi := by
    simp only [hq.crew_eq]
    exact h.owned i (hq.alive hi)
  tended g hg := by
    obtain ⟨i, hi, halive⟩ := hg
    rw [hq.crew_eq] at hi
    rw [hq.active]
    exact h.tended g ⟨i, hi, hq.alive halive⟩

theorem Sound.perm {stakes' : List Stake} (h : s.Sound stakes) (hp : stakes.Perm stakes') : s.Sound stakes' where
  honest := h.honest
  keys := h.keys
  known := h.known
  marks := (hp.filterMap _).nodup h.marks
  starting id := (h.starting id).trans (hp.filterMap _).mem_iff
  lock := (hp.filter _).length_eq ▸ h.lock
  fits st hst := h.fits st (hp.mem_iff.mpr hst)
  bounded := h.bounded
  owned i hi := (h.owned i hi).imp_right fun ⟨st, hst, hmem⟩ => ⟨st, hp.mem_iff.mp hst, hmem⟩
  tended g hg := (h.tended g hg).imp_right fun ⟨st, hst, hmem⟩ => ⟨st, hp.mem_iff.mp hst, hmem⟩

/-! ### A call puts its stake in another's place -/

theorem mem_filterMap_mark {st : Stake} (hst : st ∈ others) (hmark : st.mark? = some id) :
    id ∈ others.filterMap Stake.mark? := List.mem_filterMap.mpr ⟨st, hst, hmark⟩

/-- A call may exchange its stake for one that fits, marks the same pipeline and loses nothing alive. -/
theorem Sound.swap (h : s.Sound (st :: others)) (hmark : st'.mark? = st.mark?)
    (hlock : st'.holdsLock = true → st.holdsLock = true) (hfits : s.Fits st')
    (hleftover : ∀ i ∈ st.leftover, s.Alive i → i ∈ st'.leftover)
    (htended : ∀ g ∈ st.tended, (∃ i ∈ s.crew g, s.Alive i) → g ∈ st'.tended) : s.Sound (st' :: others) where
  honest := h.honest
  keys := h.keys
  known := h.known
  marks := by
    have hmarks := h.marks
    rw [List.filterMap_cons] at hmarks ⊢
    rwa [hmark]
  starting id := by
    rw [h.starting id, List.filterMap_cons, List.filterMap_cons, hmark]
  lock := by
    have hfirst := h.lock
    rw [List.filter_cons] at hfirst ⊢
    split_ifs with hst'
    · rwa [if_pos (hlock hst')] at hfirst
    · split_ifs at hfirst
      · exact le_trans (Nat.le_succ _) hfirst
      · exact hfirst
  fits st hst := by
    rcases List.mem_cons.mp hst with rfl | hst
    · exact hfits
    · exact h.fits st (by simp [hst])
  bounded := h.bounded
  owned i hi := by
    refine (h.owned i hi).imp_right ?_
    rintro ⟨other, hother, hmem⟩
    rcases List.mem_cons.mp hother with rfl | hother
    · exact ⟨st', by simp, hleftover i hmem hi⟩
    · exact ⟨other, by simp [hother], hmem⟩
  tended g hg := by
    refine (h.tended g hg).imp_right ?_
    rintro ⟨other, hother, hmem⟩
    rcases List.mem_cons.mp hother with rfl | hother
    · exact ⟨st', by simp, htended g hmem hg⟩
    · exact ⟨other, by simp [hother], hmem⟩

theorem sound_nothing_cons : s.Sound (.nothing :: others) ↔ s.Sound others := by
  constructor
  · intro h
    refine ⟨h.honest, h.keys, h.known, h.marks, h.starting, h.lock, fun st hst => h.fits st (by simp [hst]), h.bounded,
      fun i hi => ?_, fun g hg => ?_⟩
    · exact (h.owned i hi).imp_right (by simp)
    · exact (h.tended g hg).imp_right (by simp)
  · intro h
    refine ⟨h.honest, h.keys, h.known, h.marks, h.starting, h.lock, fun st hst => ?_, h.bounded,
      fun i hi => ?_, fun g hg => ?_⟩
    · rcases List.mem_cons.mp hst with rfl | hst
      · trivial
      · exact h.fits st hst
    · exact (h.owned i hi).imp_right (by simp)
    · exact (h.tended g hg).imp_right (by simp)

/-! ### Starts -/

theorem Sound.mark (h : s.Sound (.nothing :: others)) (hid : id ∉ s.starting) :
    Sound { s with starting := s.starting ++ [id] } (.marked id :: others) where
  honest := h.honest
  keys := h.keys
  known := h.known
  marks := List.nodup_cons.mpr ⟨fun hmem => hid ((h.starting id).mpr hmem), h.marks⟩
  starting id' := by
    have hstarting := h.starting id'
    simp only [List.filterMap_cons, Stake.mark?] at hstarting ⊢
    rw [List.mem_append, List.mem_singleton, List.mem_cons, hstarting, or_comm]
  lock := h.lock
  fits st hst := by
    rcases List.mem_cons.mp hst with rfl | hst
    · trivial
    · exact h.fits st (by simp [hst])
  bounded := h.bounded
  owned i hi := (h.owned i hi).imp_right (by simp)
  tended g hg := (h.tended g hg).imp_right (by simp)

theorem Sound.unmark (h : s.Sound (.marked id :: others)) : (s.unmark id).Sound (.nothing :: others) where
  honest := h.honest
  keys := h.keys
  known := h.known
  marks := (List.nodup_cons.mp h.marks).2
  starting id' := by
    have hstarting := h.starting id'
    have hfresh := (List.nodup_cons.mp h.marks).1
    simp only [List.filterMap_cons, Stake.mark?, List.mem_cons] at hstarting ⊢
    change id' ∈ s.starting.filter (· ≠ id) ↔ _
    rw [List.mem_filter, hstarting, decide_eq_true_iff]
    constructor
    · rintro ⟨rfl | hmem, hne⟩
      · exact absurd rfl hne
      · exact hmem
    · intro hmem
      refine ⟨.inr hmem, ?_⟩
      rintro rfl
      exact hfresh hmem
  lock := h.lock
  fits st hst := by
    rcases List.mem_cons.mp hst with rfl | hst
    · trivial
    · exact h.fits st (by simp [hst])
  bounded := h.bounded
  owned i hi := (h.owned i hi).imp_right (by simp)
  tended g hg := (h.tended g hg).imp_right (by simp)

/-- As long as nobody holds the active pipelines, nobody looks at one of them. -/
theorem Sound.not_holdsLock (h : s.Sound stakes) (hfree : s.activeHeld = false) (hst : st ∈ stakes) :
    st.holdsLock = false := by
  have hfits := h.fits st hst
  cases st with
  | inspecting id g => exact absurd (hfree.symm.trans hfits.1) (by simp)
  | _ => rfl

/-! ### The active pipelines -/

theorem Sound.filter_holdsLock (h : s.Sound (st :: others)) (hfree : s.activeHeld = false) :
    others.filter Stake.holdsLock = [] :=
  List.filter_eq_nil_iff.mpr fun other hother => by simp [h.not_holdsLock hfree (List.mem_cons_of_mem _ hother)]

theorem Sound.take (h : s.Sound (.marked id :: others)) (hfree : s.activeHeld = false) (hmem : (id, g) ∈ s.active) :
    Sound { s with activeHeld := true } (.inspecting id g :: others) where
  honest := h.honest
  keys := h.keys
  known := h.known
  marks := h.marks
  starting := h.starting
  lock := by
    rw [List.filter_cons, h.filter_holdsLock hfree]
    exact le_refl 1
  fits st hst := by
    rcases List.mem_cons.mp hst with rfl | hst
    · exact ⟨rfl, hmem⟩
    · have hother := h.fits st (by simp [hst])
      cases st with
      | inspecting id' g' => exact ⟨rfl, hother.2⟩
      | _ => exact hother
  bounded := h.bounded
  owned i hi := (h.owned i hi).imp_right (by simp)
  tended g hg := (h.tended g hg).imp_right (by simp)

/-- Whoever holds the active pipelines is the only one, and may give them back. -/
theorem Sound.giveBack (h : s.Sound (.inspecting id g :: others)) :
    Sound { s with activeHeld := false } (.marked id :: others) where
  honest := h.honest
  keys := h.keys
  known := h.known
  marks := h.marks
  starting := h.starting
  lock := by
    have hlock := h.lock
    rw [List.filter_cons_of_pos rfl, List.length_cons] at hlock
    rw [List.filter_cons_of_neg (by simp [Stake.holdsLock])]
    omega
  fits st hst := by
    rcases List.mem_cons.mp hst with rfl | hst
    · trivial
    · have hother := h.fits st (by simp [hst])
      cases st with
      | inspecting id' g' =>
          have hlock := h.lock
          have htwo : (Stake.inspecting id' g') ∈ others.filter Stake.holdsLock := List.mem_filter.mpr ⟨hst, rfl⟩
          rw [List.filter_cons_of_pos rfl, List.length_cons] at hlock
          have hone := List.length_pos_of_mem htwo
          omega
      | _ => exact hother
  bounded := h.bounded
  owned i hi := (h.owned i hi).imp_right (by simp)
  tended g hg := (h.tended g hg).imp_right (by simp)

theorem Fits.shrink {active : List (PipelineId × Nat)} (h : s.Fits st) (hsub : active ⊆ s.active)
    (hlock : st.holdsLock = false) : Fits { s with active } st :=
  h.map (fun hholds => absurd (hlock.symm.trans hholds) (by simp)) (fun _ _ hidle g hg => hidle g (hsub hg))
    (fun _ hsure => hsure) (fun _ _ hof => hof) (fun _ _ _ _ hcovers => hcovers)

/-- While nobody holds the active pipelines, a call may take some away, if it has in its hands from then on those
that have living processes. -/
theorem Sound.shrink {active : List (PipelineId × Nat)} (h : s.Sound (st :: others)) (hfree : s.activeHeld = false)
    (hsub : active.Sublist s.active) (hmark : st'.mark? = st.mark?) (hlock : st'.holdsLock = false)
    (hfits : Fits { s with active } st') (hleftover : st.leftover = []) (htended : st.tended = [])
    (hrest : ∀ id g, (id, g) ∈ s.active → (id, g) ∉ active → (∃ i ∈ s.crew g, s.Alive i) → g ∈ st'.tended) :
    Sound { s with active } (st' :: others) where
  honest := h.honest
  keys := (hsub.map _).nodup h.keys
  known id g hg := h.known id g (hsub.subset hg)
  marks := by
    have hmarks := h.marks
    rw [List.filterMap_cons] at hmarks ⊢
    rwa [hmark]
  starting id := by
    have hstarting := h.starting id
    rw [List.filterMap_cons] at hstarting ⊢
    rwa [hmark]
  lock := by
    rw [List.filter_cons, h.filter_holdsLock hfree, hlock]
    exact Nat.zero_le 1
  fits other hother := by
    rcases List.mem_cons.mp hother with rfl | hother
    · exact hfits
    · have hmem := List.mem_cons_of_mem st hother
      exact (h.fits other hmem).shrink hsub.subset (h.not_holdsLock hfree hmem)
  bounded := h.bounded
  owned i hi := by
    refine (h.owned i hi).imp_right fun ⟨other, hother, hmem⟩ => ?_
    rcases List.mem_cons.mp hother with rfl | hother
    · rw [hleftover] at hmem
      exact absurd hmem (List.not_mem_nil)
    · exact ⟨other, by simp [hother], hmem⟩
  tended g hg := by
    rcases h.tended g hg with ⟨id, hid⟩ | ⟨other, hother, hmem⟩
    · by_cases hkept : (id, g) ∈ active
      · exact .inl ⟨id, hkept⟩
      · exact .inr ⟨st', by simp, hrest id g hid hkept hg⟩
    · rcases List.mem_cons.mp hother with rfl | hother
      · rw [htended] at hmem
        exact absurd hmem (List.not_mem_nil)
      · exact .inr ⟨other, by simp [hother], hmem⟩

theorem Sound.ne_of_mark (h : s.Sound (st :: others)) (hmark : st.mark? = some id) {other : Stake}
    (hother : other ∈ others) {id' : PipelineId} (hmark' : other.mark? = some id') : id' ≠ id := by
  have hmarks := h.marks
  rw [List.filterMap_cons, hmark] at hmarks
  rintro rfl
  exact (List.nodup_cons.mp hmarks).1 (mem_filterMap_mark hother hmark')

theorem Fits.enter (h : s.Fits st) (hlock : st.holdsLock = false) (hne : ∀ id', st.mark? = some id' → id' ≠ id) :
    Fits { s with active := s.active ++ [(id, g)] } st := by
  refine h.map (fun hholds => absurd (hlock.symm.trans hholds) (by simp)) (fun id' hmark hidle g' hg' => ?_)
    (fun _ hsure => hsure) (fun _ _ hof => hof) (fun _ _ _ _ hcovers => hcovers)
  rcases List.mem_append.mp hg' with hg' | hg'
  · exact hidle g' hg'
  · exact hne id' hmark (congrArg Prod.fst (List.mem_singleton.mp hg'))

/-- The start that made a generation enters it among the active ones. -/
theorem Sound.enter (h : s.Sound (.enlisting id g :: others)) (hfree : s.activeHeld = false) :
    Sound { s with active := s.active ++ [(id, g)] } (.marked id :: others) where
  honest := h.honest
  keys := by
    have hidle := (h.fits _ (by simp : Stake.enlisting id g ∈ Stake.enlisting id g :: others)).1
    rw [List.map_append, List.nodup_append]
    refine ⟨h.keys, List.nodup_singleton _, ?_⟩
    rintro a ha b hb rfl
    obtain ⟨⟨id', g'⟩, hmem, rfl⟩ := List.mem_map.mp ha
    obtain rfl : id' = id := by simpa using hb
    exact hidle g' hmem
  known id' g' hmem := by
    rcases List.mem_append.mp hmem with hmem | hmem
    · exact h.known id' g' hmem
    · obtain ⟨rfl, rfl⟩ := Prod.mk.inj (List.mem_singleton.mp hmem)
      exact (h.fits _ (by simp : Stake.enlisting id' g' ∈ Stake.enlisting id' g' :: others)).2
  marks := h.marks
  starting := h.starting
  lock := h.lock
  fits st hst := by
    rcases List.mem_cons.mp hst with rfl | hst
    · trivial
    · have hmem := List.mem_cons_of_mem (Stake.enlisting id g) hst
      exact (h.fits st hmem).enter (h.not_holdsLock hfree hmem) fun id' hmark => h.ne_of_mark rfl hst hmark
  bounded := h.bounded
  owned i hi := (h.owned i hi).imp_right (by simp)
  tended g' hg' := by
    rcases h.tended g' hg' with ⟨id', hid'⟩ | ⟨other, hother, hmem⟩
    · exact .inl ⟨id', by simp [hid']⟩
    · rcases List.mem_cons.mp hother with rfl | hother
      · obtain rfl := List.mem_singleton.mp hmem
        exact .inl ⟨id, by simp⟩
      · exact .inr ⟨other, by simp [hother], hmem⟩

/-! ### New processes -/

structure Grown (s s' : Supervisor) : Prop where
  now : s'.now = s.now
  active : s'.active = s.active
  activeHeld : s'.activeHeld = s.activeHeld
  starting : s'.starting = s.starting
  processes : ∃ ps, s'.processes = s.processes ++ ps ∧ ∀ p ∈ ps, p.exit = none
  generations : ∃ xs, s'.generations = s.generations ++ xs

namespace Grown

theorem refl (s : Supervisor) : Grown s s := ⟨rfl, rfl, rfl, rfl, ⟨[], by simp, by simp⟩, ⟨[], by simp⟩⟩

theorem trans (h : Grown s s') {s'' : Supervisor} (h' : Grown s' s'') : Grown s s'' := by
  obtain ⟨ps, hps, hnew⟩ := h.processes
  obtain ⟨qs, hqs, hnew'⟩ := h'.processes
  obtain ⟨xs, hxs⟩ := h.generations
  obtain ⟨ys, hys⟩ := h'.generations
  refine ⟨h'.now.trans h.now, h'.active.trans h.active, h'.activeHeld.trans h.activeHeld,
    h'.starting.trans h.starting, ⟨ps ++ qs, by rw [hqs, hps, List.append_assoc], fun p hp => ?_⟩,
    ⟨xs ++ ys, by rw [hys, hxs, List.append_assoc]⟩⟩
  rcases List.mem_append.mp hp with hp | hp
  · exact hnew p hp
  · exact hnew' p hp

theorem length_le (h : Grown s s') : s.processes.length ≤ s'.processes.length := by
  obtain ⟨ps, hps, -⟩ := h.processes
  rw [hps, List.length_append]
  exact Nat.le_add_right _ _

theorem getElem?_processes (h : Grown s s') {i : Nat} (hi : i < s.processes.length) :
    s'.processes[i]? = s.processes[i]? := by
  obtain ⟨ps, hps, -⟩ := h.processes
  rw [hps, List.getElem?_append_left hi]

theorem getElem?_generations (h : Grown s s') {g : Nat} (hg : g < s.generations.length) :
    s'.generations[g]? = s.generations[g]? := by
  obtain ⟨xs, hxs⟩ := h.generations
  rw [hxs, List.getElem?_append_left hg]

theorem alive (h : Grown s s') {i : Nat} (hi : i < s.processes.length) (halive : s'.Alive i) : s.Alive i := by
  obtain ⟨p, hp, hrun⟩ := halive
  rw [h.getElem?_processes hi] at hp
  exact ⟨p, hp, h.now ▸ hrun⟩

theorem gone (h : Grown s s') {i : Nat} (hi : s.Gone i) : s'.Gone i := by
  obtain ⟨p, hp, hend⟩ := hi
  obtain ⟨hlt, -⟩ := List.getElem?_eq_some_iff.mp hp
  exact ⟨p, (h.getElem?_processes hlt).trans hp, h.now ▸ hend⟩

theorem honest (h : Grown s s') (hs : s.Honest) : s'.Honest := by
  obtain ⟨ps, hps, hnew⟩ := h.processes
  intro p hp
  rw [hps] at hp
  rw [h.now]
  rcases List.mem_append.mp hp with hp | hp
  · exact hs p hp
  · intro e he
    rw [hnew p hp] at he
    exact absurd he (by simp)

theorem isOf (h : Grown s s') (hof : s.IsOf g id) : s'.IsOf g id := by
  obtain ⟨x, hx, hid⟩ := hof
  obtain ⟨hlt, -⟩ := List.getElem?_eq_some_iff.mp hx
  exact ⟨x, (h.getElem?_generations hlt).trans hx, hid⟩

theorem crew_eq (h : Grown s s') (hg : g < s.generations.length) : s'.crew g = s.crew g := by
  rw [crew, crew, h.getElem?_generations hg]

theorem sure (h : Grown s s') {t : Teardown} (ht : t.Sure s) : t.Sure s' :=
  fun i rest limit hi hstage => h.gone (ht i rest limit hi hstage)

theorem covers (h : Grown s s') (hbounded : ∀ g, ∀ i ∈ s.crew g, i < s.processes.length) (hof : s.IsOf g id)
    {t : Takedown} (ht : s.Covers g t) : s'.Covers g t := by
  obtain ⟨x, hx, -⟩ := hof
  obtain ⟨hlt, -⟩ := List.getElem?_eq_some_iff.mp hx
  cases t with
  | joining => trivial
  | claiming => trivial
  | stopping t =>
      refine ⟨h.sure ht.1, fun i hi halive => ?_⟩
      rw [h.crew_eq hlt] at hi
      exact ht.2 i hi (h.alive (hbounded g i hi) halive)

theorem fits (h : Grown s s') (hbounded : ∀ g, ∀ i ∈ s.crew g, i < s.processes.length) (hst : s.Fits st) :
    s'.Fits st :=
  hst.map (fun _ hheld => ⟨h.activeHeld.trans hheld, h.active ▸ List.Subset.refl _⟩)
    (fun _ _ hidle g hg => hidle g (h.active ▸ hg)) (fun _ hsure => h.sure hsure) (fun _ _ hof => h.isOf hof)
    (fun _ _ _ hof hcovers => h.covers hbounded hof hcovers)

end Grown

/-- A start may add processes and generations, if it has in its hands from then on what is alive of them and of what it
had in its hands before. -/
theorem Sound.grow (h : s.Sound (st :: others)) (hg : Grown s s') (hmark : st'.mark? = st.mark?)
    (hlock : st'.holdsLock = false) (hfree : st.tended = []) (hfits : s'.Fits st')
    (hbounded : ∀ g, s.generations.length ≤ g → ∀ i ∈ s'.crew g, i < s'.processes.length)
    (howned : ∀ i, s.processes.length ≤ i ∨ i ∈ st.leftover → s'.Alive i →
      (∃ g, i ∈ s'.crew g) ∨ i ∈ st'.leftover)
    (htended : ∀ g, s.generations.length ≤ g → (∃ i ∈ s'.crew g, s'.Alive i) → g ∈ st'.tended) :
    s'.Sound (st' :: others) where
  honest := hg.honest h.honest
  keys := hg.active ▸ h.keys
  known id g hmem := hg.isOf (h.known id g (hg.active ▸ hmem))
  marks := by
    rw [List.filterMap_cons, hmark, ← List.filterMap_cons]
    exact h.marks
  starting id' := by
    rw [hg.starting, List.filterMap_cons, hmark, ← List.filterMap_cons]
    exact h.starting id'
  lock := by
    rw [List.filter_cons, hlock]
    exact ((List.sublist_cons_self st others).filter _).length_le.trans h.lock
  fits st hst := by
    rcases List.mem_cons.mp hst with rfl | hst
    · exact hfits
    · exact hg.fits h.bounded (h.fits st (by simp [hst]))
  bounded g i hi := by
    by_cases hlt : g < s.generations.length
    · rw [hg.crew_eq hlt] at hi
      exact lt_of_lt_of_le (h.bounded g i hi) hg.length_le
    · exact hbounded g (not_lt.mp hlt) i hi
  owned i hi := by
    by_cases hlt : i < s.processes.length
    · rcases h.owned i (hg.alive hlt hi) with ⟨g, hmem⟩ | ⟨st, hst, hmem⟩
      · have hlt' : g < s.generations.length := by
          by_contra hge
          simp [crew, List.getElem?_eq_none (not_lt.mp hge)] at hmem
        exact .inl ⟨g, (hg.crew_eq hlt').symm ▸ hmem⟩
      · rcases List.mem_cons.mp hst with rfl | hst
        · exact (howned i (.inr hmem) hi).imp_right fun hmem => ⟨st', by simp, hmem⟩
        · exact .inr ⟨st, by simp [hst], hmem⟩
    · exact (howned i (.inl (not_lt.mp hlt)) hi).imp_right fun hmem => ⟨st', by simp, hmem⟩
  tended g hlively := by
    by_cases hlt : g < s.generations.length
    · obtain ⟨i, hi, halive⟩ := hlively
      rw [hg.crew_eq hlt] at hi
      rw [hg.active]
      refine (h.tended g ⟨i, hi, hg.alive (h.bounded g i hi) halive⟩).imp_right ?_
      rintro ⟨st, hst, hmem⟩
      rcases List.mem_cons.mp hst with rfl | hst
      · exact absurd (hfree ▸ hmem) List.not_mem_nil
      · exact ⟨st, by simp [hst], hmem⟩
    · exact .inr ⟨st', by simp, htended g (not_lt.mp hlt) hlively⟩

theorem spawnAll_spec {env : Surroundings} {specs : List WorkerSpec} {ms ms' : List Member} {e : Option Error}
    (h : spawnAll env specs ms s = (e, ms', s')) :
    Grown s s' ∧ s'.generations = s.generations ∧
      ∀ i, i ∈ ms'.map (·.process) ↔ i ∈ ms.map (·.process) ∨ (s.processes.length ≤ i ∧ i < s'.processes.length) := by
  induction specs generalizing ms s with
  | nil =>
      obtain ⟨-, rfl, rfl⟩ : none = e ∧ ms = ms' ∧ s = s' := by simpa [spawnAll] using h
      refine ⟨.refl s, rfl, fun i => ?_⟩
      constructor
      · exact .inl
      · rintro (hi | ⟨hge, hlt⟩)
        · exact hi
        · omega
  | cons spec specs ih =>
      rw [spawnAll, spawn] at h
      cases hlaunch : (env.launch s.launched.length spec).bind (Subprocess.launch spec.label s.now) with
      | error err =>
          simp only [hlaunch] at h
          obtain ⟨-, rfl, rfl⟩ : some err = e ∧ ms = ms' ∧ { s with launched := s.launched ++ [spec] } = s' := by
            simpa using h
          refine ⟨⟨rfl, rfl, rfl, rfl, ⟨[], by simp, by simp⟩, ⟨[], by simp⟩⟩, rfl, fun i => ?_⟩
          constructor
          · exact .inl
          · rintro (hi | ⟨hge, hlt⟩)
            · exact hi
            · exact absurd hlt (not_lt.mpr hge)
      | ok p =>
          simp only [hlaunch] at h
          obtain ⟨hgrown, hgenerations, hmembers⟩ := ih h
          have hexit : p.exit = none := by
            cases hcommand : env.launch s.launched.length spec with
            | error err =>
                rw [hcommand] at hlaunch
                exact absurd hlaunch (by simp [Except.bind])
            | ok r =>
                rw [hcommand] at hlaunch
                exact Subprocess.exit_launch hlaunch
          -- the first process is the next number, and the others follow it
          have hfirst : Grown s { s with processes := s.processes ++ [p], launched := s.launched ++ [spec] } :=
            ⟨rfl, rfl, rfl, rfl, ⟨[p], rfl, by simpa using hexit⟩, ⟨[], by simp⟩⟩
          refine ⟨hfirst.trans hgrown, hgenerations, fun i => ?_⟩
          have hlength := hgrown.length_le
          rw [hmembers i]
          simp only [List.map_append, List.mem_append, List.map_cons, List.map_nil, List.mem_singleton,
            List.length_append, List.length_singleton] at hlength ⊢
          constructor
          · rintro ((hi | rfl) | ⟨hge, hlt⟩)
            · exact .inl hi
            · exact .inr ⟨le_refl _, by omega⟩
            · exact .inr ⟨by omega, hlt⟩
          · rintro (hi | ⟨hge, hlt⟩)
            · exact .inl (.inl hi)
            · by_cases heq : i = s.processes.length
              · exact .inl (.inr heq)
              · exact .inr ⟨by omega, hlt⟩

end Supervisor

end Pipeworks
