import Pipeworks.Proofs.Supervisor.Calls

/-!
How many generations of one pipeline live at a time. The invariant of ownership holds at every scene, so two starts
of one pipeline have living processes at the same time only while a stop, an abort or a shutdown is to end one of
the two generations. That this does happen is shown by a run: a call takes the generation out of the active ones
before it ends the processes, and a start looks at nothing but the active ones.
-/

namespace Pipeworks.Scene

variable {config : Config} {x x' : Scene}

theorem sound_ofConfig (config : Config) : (ofConfig config).supervisor.Sound [] := by
  refine ⟨?_, ?_, ?_, ?_, ?_, ?_, ?_, ?_, ?_, ?_⟩ <;>
    simp [ofConfig, Supervisor.ofConfig, Supervisor.Honest, Supervisor.Alive, Supervisor.crew]

theorem stake_of_isNew {c : Call} (h : c.isNew = true) : c.stake = .nothing := by
  unfold Call.isNew at h
  split at h
  · rfl
  · rfl
  · rfl
  · rfl
  · rfl
  · exact absurd h (by simp)

/-- However calls, monitors, exits and events follow one another, the invariant holds as long as nobody gives up a
start. -/
theorem Reachable.sound (h : Reachable config (·.isPatient = true) x) :
    x.supervisor.Sound (x.calls.map Call.stake) := by
  refine h.invariant (I := fun x => x.supervisor.Sound (x.calls.map Call.stake)) (sound_ofConfig config) ?_
  · rintro x m x' hm hx hplay
    cases m with
    | ask c =>
        rw [play] at hplay
        split_ifs at hplay with hnew
        obtain rfl := Option.some.inj hplay
        refine (Supervisor.sound_nothing_cons.mpr hx).perm ?_
        rw [List.map_append, List.map_cons, List.map_nil, stake_of_isNew hnew]
        exact (List.perm_append_singleton _ _).symm
    | proceed k env =>
        obtain ⟨earlier, c, later, hcalls, hnext⟩ := proceed_eq_some hplay
        have hstep := Supervisor.Sound.step env c (hx.perm (by rw [hcalls, List.map_append]; exact List.perm_middle))
        rcases hnext with ⟨a, hnext, hcalls'⟩ | ⟨c', hnext, hcalls'⟩
        · rw [hnext] at hstep
          rw [hcalls', List.map_append]
          exact Supervisor.sound_nothing_cons.mp hstep
        · rw [hnext] at hstep
          rw [hcalls', List.map_append]
          exact hstep.perm List.perm_middle.symm
    | giveUp k => exact absurd hm (by simp [Move.isPatient])
    | watch g timerFirst =>
        obtain ⟨s, hs, rfl⟩ := Option.map_eq_some_iff.mp hplay
        exact hx.quiet (.stepMonitor hs)
    | pass time =>
        obtain rfl := Option.some.inj hplay
        exact hx.quiet (.pass _ _)
    | signal process number =>
        obtain rfl := Option.some.inj hplay
        exact hx.quiet (.signal _ _ _)
    | ingest e =>
        obtain rfl := Option.some.inj hplay
        exact hx.quiet (.ingest _ _)

/-- The processes of one start: those of a generation, or those that are left of a start that did not come to one. -/
inductive Crew where
  | generation (g : Nat)
  | unwinding (k : Nat)
deriving DecidableEq

def crew? (x : Scene) : Crew → Option (PipelineId × List Nat)
  | .generation g => (x.supervisor.generations[g]?).map fun y => (y.pipeline, y.members.map (·.process))
  | .unwinding k =>
    match x.calls[k]? with
    | some (.start id _ (.unwinding t _)) => some (id, t.processes)
    | _ => none

def Lively (x : Scene) (id : PipelineId) (a : Crew) : Prop :=
  ∃ is, x.crew? a = some (id, is) ∧ ∃ i ∈ is, x.supervisor.Alive i

/-- A stop, an abort or a shutdown under way that is to end a generation of a pipeline. -/
def Ends (x : Scene) (id : PipelineId) (g : Nat) : Prop :=
  ∃ c ∈ x.calls, ∃ runs t, c.stake = .ending runs ∧ (id, g, t) ∈ runs

theorem eq_of_mark {stakes : List Stake} (h : (stakes.filterMap Stake.mark?).Nodup) {k l : Nat} {st st' : Stake}
    {id : PipelineId} (hk : stakes[k]? = some st) (hl : stakes[l]? = some st') (hst : st.mark? = some id)
    (hst' : st'.mark? = some id) : k = l := by
  rw [List.Nodup, List.pairwise_filterMap, List.pairwise_iff_getElem] at h
  obtain ⟨hklt, rfl⟩ := List.getElem?_eq_some_iff.mp hk
  obtain ⟨hllt, rfl⟩ := List.getElem?_eq_some_iff.mp hl
  rcases Nat.lt_trichotomy k l with hlt | heq | hlt
  · exact absurd rfl (h k l hklt hllt hlt id hst id hst')
  · exact heq
  · exact absurd rfl (h l k hllt hklt hlt id hst' id hst)

theorem eq_of_stake_unwinding {c : Call} {id : PipelineId} {t : Teardown} (h : c.stake = .unwinding id t) :
    ∃ o e, c = .start id o (.unwinding t e) := by
  unfold Call.stake at h
  split at h <;> simp at h
  obtain ⟨rfl, rfl⟩ := h
  exact ⟨_, _, rfl⟩

/-- Who looks after a crew with a living process. -/
inductive Keeper (x : Scene) (id : PipelineId) : Crew → Prop where
  | active {g : Nat} : (id, g) ∈ x.supervisor.active → Keeper x id (.generation g)
  | enlisting {g k : Nat} : (x.calls.map Call.stake)[k]? = some (.enlisting id g) → Keeper x id (.generation g)
  | unwinding {k : Nat} {t : Teardown} : (x.calls.map Call.stake)[k]? = some (.unwinding id t) →
      Keeper x id (.unwinding k)

theorem keeper_of_lively (h : Reachable config (·.isPatient = true) x) {id : PipelineId} {a : Crew}
    (ha : x.Lively id a) : Keeper x id a ∨ ∃ g, a = .generation g ∧ x.Ends id g := by
  have hsound := h.sound
  obtain ⟨is, hcrew, i, hi, halive⟩ := ha
  cases a with
  | unwinding k =>
      simp only [crew?] at hcrew
      split at hcrew
      · rename_i id' o t e hk
        obtain ⟨rfl, rfl⟩ := Prod.mk.inj (Option.some.inj hcrew)
        exact .inl (.unwinding (by rw [List.getElem?_map, hk]; rfl))
      · exact absurd hcrew (by simp)
  | generation g =>
      obtain ⟨y, hy, hpair⟩ := Option.map_eq_some_iff.mp hcrew
      obtain ⟨rfl, rfl⟩ := Prod.mk.inj hpair
      -- who looks after the generation may name its pipeline by itself
      have hof {id : PipelineId} (hof : x.supervisor.IsOf g id) : y.pipeline = id := by
        obtain ⟨z, hz, hid⟩ := hof
        rw [Option.some.inj (hy.symm.trans hz)]
        exact hid
      have hmem : i ∈ x.supervisor.crew g := by
        rw [Supervisor.crew, hy]
        exact hi
      rcases hsound.tended g ⟨i, hmem, halive⟩ with ⟨id, hid⟩ | ⟨st, hst, htended⟩
      · rw [hof (hsound.known id g hid)]
        exact .inl (.active hid)
      · have hfits := hsound.fits st hst
        obtain ⟨k, hk⟩ := List.getElem?_of_mem hst
        cases st with
        | enlisting id g' =>
            obtain rfl := List.mem_singleton.mp htended
            rw [hof hfits.2]
            exact .inl (.enlisting hk)
        | ending runs =>
            obtain ⟨⟨id, g', t⟩, hrun, rfl⟩ := List.mem_map.mp htended
            obtain ⟨c, hc, hstake⟩ := List.mem_map.mp hst
            rw [hof (hfits _ hrun).1]
            exact .inr ⟨g', rfl, c, hc, runs, t, hstake, hrun⟩
        | _ => exact absurd htended List.not_mem_nil

theorem Keeper.unique (h : Reachable config (·.isPatient = true) x) {id : PipelineId} {a b : Crew}
    (ha : Keeper x id a) (hb : Keeper x id b) : a = b := by
  have hsound := h.sound
  have hidle {st : Stake} {k : Nat} (hk : (x.calls.map Call.stake)[k]? = some st) :
      x.supervisor.Fits st := hsound.fits st (List.mem_of_getElem? hk)
  cases ha with
  | active hg =>
      cases hb with
      | active hg' => rw [hsound.eq_of_mem_active hg hg']
      | enlisting hk => exact absurd hg ((hidle hk).1 _)
      | unwinding hk => exact absurd hg ((hidle hk).1 _)
  | enlisting hk =>
      cases hb with
      | active hg' => exact absurd hg' ((hidle hk).1 _)
      | enlisting hl =>
          obtain rfl := eq_of_mark hsound.marks hk hl rfl rfl
          obtain ⟨-, rfl⟩ := Stake.enlisting.inj (Option.some.inj (hk.symm.trans hl))
          rfl
      | unwinding hl =>
          obtain rfl := eq_of_mark hsound.marks hk hl rfl rfl
          exact absurd (Option.some.inj (hk.symm.trans hl)) (by simp)
  | unwinding hk =>
      cases hb with
      | active hg' => exact absurd hg' ((hidle hk).1 _)
      | enlisting hl =>
          obtain rfl := eq_of_mark hsound.marks hk hl rfl rfl
          exact absurd (Option.some.inj (hk.symm.trans hl)) (by simp)
      | unwinding hl =>
          obtain rfl := eq_of_mark hsound.marks hk hl rfl rfl
          rfl

/-- Every living process belongs to a crew. Two crews of one pipeline have living processes at the same time only if
one of them is a generation that a stop, an abort or a shutdown under way is to end. -/
theorem lively_unique_unless_ending (h : Reachable config (·.isPatient = true) x) :
    (∀ i, x.supervisor.Alive i → ∃ id a is, x.crew? a = some (id, is) ∧ i ∈ is) ∧
      ∀ id a b, x.Lively id a → x.Lively id b →
        a = b ∨ ∃ g, x.Ends id g ∧ (a = .generation g ∨ b = .generation g) := by
  constructor
  · intro i hi
    rcases h.sound.owned i hi with ⟨g, hmem⟩ | ⟨st, hst, hmem⟩
    · rw [Supervisor.crew] at hmem
      cases hy : x.supervisor.generations[g]? with
      | none =>
          rw [hy] at hmem
          exact absurd hmem List.not_mem_nil
      | some y =>
          rw [hy] at hmem
          exact ⟨y.pipeline, .generation g, _, by rw [crew?, hy]; rfl, hmem⟩
    · cases st with
      | unwinding id t =>
          obtain ⟨c, hc, hstake⟩ := List.mem_map.mp hst
          obtain ⟨o, e, rfl⟩ := eq_of_stake_unwinding hstake
          obtain ⟨k, hk⟩ := List.getElem?_of_mem hc
          exact ⟨id, .unwinding k, t.processes, by rw [crew?, hk], hmem⟩
      | _ => exact absurd hmem List.not_mem_nil
  · intro id a b ha hb
    rcases keeper_of_lively h ha with ha | ⟨g, rfl, hends⟩
    · rcases keeper_of_lively h hb with hb | ⟨g, rfl, hends⟩
      · exact .inl (ha.unique h hb)
      · exact .inr ⟨g, hends, .inr rfl⟩
    · exact .inr ⟨g, hends, .inl rfl⟩

/-! ### A run in which two generations live -/

def straight : Graph where
  pipeline := 1
  name := "straight"
  inputs := [⟨1, none, "in", "near", none⟩]
  outputs := [⟨1, none, "out", "near", none⟩]
  transformations := []
  flows := [⟨none, .input 1, .output 1⟩]

def calm : Surroundings where
  fetch _ := .ok (some straight)
  reachable _ := true
  launch _ _ := .ok (.ok {})
  stamp := ""

/-- A pipeline is started; a stop takes its generation out of the active ones; and before the stop goes on, the
pipeline is started again. -/
def overlap : List Move :=
  [.ask (.startOf 1 ⟨none, none⟩)] ++ List.replicate 5 (.proceed 0 calm) ++
    [.ask (.stopOf 1), .proceed 0 calm, .ask (.startOf 1 ⟨none, none⟩)] ++ List.replicate 5 (.proceed 1 calm)

def view (x : Scene) : Option (PipelineId × List Nat) × Option (PipelineId × List Nat) × List (Option ExitStatus) :=
  (x.crew? (.generation 0), x.crew? (.generation 1),
    x.supervisor.processes.map fun p => p.child.status? x.supervisor.now)

theorem overlap_lively : ∃ x, Reachable {} (·.isPatient = true) x ∧ x.Lively 1 (.generation 0) ∧
    x.Lively 1 (.generation 1) := by
  have hview : (overlap.foldlM play (ofConfig {})).map view = some (some (1, [0]), some (1, [1]), [none, none]) := rfl
  obtain ⟨x, hx, hview⟩ := Option.map_eq_some_iff.mp hview
  obtain ⟨hfirst, hsecond, hrunning⟩ : x.crew? (.generation 0) = some (1, [0]) ∧
      x.crew? (.generation 1) = some (1, [1]) ∧
      (x.supervisor.processes.map fun p => p.child.status? x.supervisor.now) = [none, none] := by
    simpa [view] using hview
  have halive (i : Nat) (hi : ([none, none] : List (Option ExitStatus))[i]? = some none) :
      x.supervisor.Alive i := by
    have hstatus := congrArg (·[i]?) hrunning
    simp only [List.getElem?_map, hi] at hstatus
    obtain ⟨p, hp, hrun⟩ := Option.map_eq_some_iff.mp hstatus
    exact ⟨p, hp, hrun⟩
  have hpatient : ∀ m ∈ overlap, m.isPatient = true := by
    simp [overlap, Move.isPatient]
  exact ⟨x, Reachable.start.plays overlap hpatient hx, ⟨[0], hfirst, 0, by simp, halive 0 rfl⟩,
    ⟨[1], hsecond, 1, by simp, halive 1 rfl⟩⟩

/-- Two starts of one pipeline may have living processes at the same time. -/
theorem not_at_most_one_lively : ¬∀ (config : Config) (x : Scene), Reachable config (·.isPatient = true) x →
    ∀ id a b, x.Lively id a → x.Lively id b → a = b := by
  intro h
  obtain ⟨x, hx, hfirst, hsecond⟩ := overlap_lively
  exact absurd (h {} x hx 1 _ _ hfirst hsecond) (by decide)

/-- In such a scene one of the two is to be ended. -/
theorem overlap_ends : ∃ x, Reachable {} (·.isPatient = true) x ∧ x.Lively 1 (.generation 0) ∧
    x.Lively 1 (.generation 1) ∧ (x.Ends 1 0 ∨ x.Ends 1 1) := by
  obtain ⟨x, hx, hfirst, hsecond⟩ := overlap_lively
  refine ⟨x, hx, hfirst, hsecond, ?_⟩
  rcases (lively_unique_unless_ending hx).2 1 _ _ hfirst hsecond with heq | ⟨g, hends, heq | heq⟩
  · exact absurd heq (by decide)
  · obtain rfl := Crew.generation.inj heq
    exact .inl hends
  · obtain rfl := Crew.generation.inj heq
    exact .inr hends

end Pipeworks.Scene
