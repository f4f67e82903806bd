import Pipeworks.Proofs.Supervisor.Calls
import Pipeworks.Proofs.Supervisor.Steps

/-!
Generations that are done with. A generation is at rest when its monitor is over, it is not active, and no call has it
in its hands. Calls get into their hands only what was active, or the generation that they made, and a monitor that is
over does nothing, so a generation at rest stays at rest whatever follows.
-/

namespace Pipeworks

namespace Supervisor

variable {s s' : Supervisor} {g g' : Nat}

/-! ### Monitors that are over -/

def Over (s : Supervisor) (g : Nat) : Prop := ∃ x, s.generations[g]? = some x ∧ x.monitor.isOver = true

theorem Over.of_generations (h : s.Over g) (hsame : s'.generations = s.generations) : s'.Over g := by
  rwa [Over, hsame]

theorem Over.modifyGeneration (h : s.Over g) (g' : Nat) {f : Generation → Generation}
    (hf : ∀ x, (f x).monitor = x.monitor) : (s.modifyGeneration g' f).Over g := by
  obtain ⟨x, hx, hover⟩ := h
  refine ⟨if g' = g then f x else x, ?_, ?_⟩
  · change (s.generations.modify g' f)[g]? = _
    rw [List.getElem?_modify, hx]
    rfl
  · split_ifs
    · rwa [hf]
    · exact hover

theorem Over.cancel (h : s.Over g) (g' : Nat) : (s.cancel g').Over g := h.modifyGeneration g' fun _ => rfl

theorem Over.setHeld (h : s.Over g) (g' : Nat) (held : Bool) : (s.setHeld g' held).Over g :=
  h.modifyGeneration g' fun _ => rfl

def TouchesOnly (g : Nat) (s s' : Supervisor) : Prop := ∀ g', g' ≠ g → s'.generations[g']? = s.generations[g']?

namespace TouchesOnly

theorem of_generations (h : s'.generations = s.generations) : TouchesOnly g s s' := fun _ _ => by rw [h]

theorem trans {s'' : Supervisor} (h : TouchesOnly g s s') (h' : TouchesOnly g s' s'') : TouchesOnly g s s'' :=
  fun g' hg => (h' g' hg).trans (h g' hg)

theorem modifyGeneration (s : Supervisor) (g : Nat) (f : Generation → Generation) :
    TouchesOnly g s (s.modifyGeneration g f) := fun _ hg =>
  List.getElem?_modify_ne _ _ (Ne.symm hg)

theorem ingest (s : Supervisor) (e : Event) : TouchesOnly g s (s.ingest e).2 := of_generations rfl

theorem setMonitor (s : Supervisor) (g : Nat) (m : Monitor) : TouchesOnly g s (s.setMonitor g m) :=
  modifyGeneration s g _

theorem endMonitor (s : Supervisor) (g : Nat) : TouchesOnly g s (s.endMonitor g) :=
  (modifyGeneration s g _).trans (setMonitor _ g _)

end TouchesOnly

theorem generations_reportCompletion (s : Supervisor) (x : Generation) :
    (s.reportCompletion x).generations = s.generations := by
  rw [reportCompletion]
  generalize x.members.filter (fun m => !m.isProducer) = ms
  induction ms generalizing s with
  | nil => rfl
  | cons m ms ih => exact ih _

theorem touchesOnly_checkForCrash (s : Supervisor) (g : Nat) (x : Generation) (deadline : Option Moment) :
    TouchesOnly g s (s.checkForCrash g x deadline) := by
  rw [checkForCrash]
  split
  split
  · exact (TouchesOnly.modifyGeneration _ g _).trans (.setMonitor _ _ _)
  · exact .setMonitor _ _ _

theorem touchesOnly_stepMonitor {timerFirst : Bool} (h : s.stepMonitor g timerFirst = some s') :
    TouchesOnly g s s' := by
  cases hx : s.generations[g]? with
  | none => simp [stepMonitor, hx] at h
  | some x =>
      obtain ⟨ps, m, rfl⟩ | ⟨held, m, rfl⟩ | ⟨deadline, -, rfl⟩ | ⟨segment, message, t, -, rfl⟩ | ⟨t, -, rfl⟩ :=
        stepMonitor_cases hx h
      · exact .setMonitor _ _ _
      · exact (TouchesOnly.modifyGeneration s g _).trans (.setMonitor _ _ _)
      · exact touchesOnly_checkForCrash s g x deadline
      · exact (TouchesOnly.endMonitor s g).trans (.ingest _ _)
      · exact (TouchesOnly.endMonitor s g).trans (.of_generations (generations_reportCompletion _ x))

/-- A monitor that is over makes no step, and the steps of the others do not touch its generation. -/
theorem Over.not_stepMonitor (h : s.Over g) (timerFirst : Bool) : s.stepMonitor g timerFirst = none := by
  obtain ⟨x, hx, hover⟩ := h
  rw [Supervisor.stepMonitor, hx]
  cases hmonitor : x.monitor with
  | ended => simp [hmonitor]
  | broken => simp [hmonitor]
  | _ => exact absurd hover (by simp [hmonitor, Monitor.isOver])

theorem Over.stepMonitor (h : s.Over g) {timerFirst : Bool} (hstep : s.stepMonitor g' timerFirst = some s') :
    s'.Over g := by
  have hne : g ≠ g' := by
    rintro rfl
    rw [h.not_stepMonitor] at hstep
    cases hstep
  rwa [Over, touchesOnly_stepMonitor hstep g hne]

/-! ### Calls -/

theorem generations_report (s : Supervisor) (id : PipelineId) (run : Option RunState) :
    (s.report id run).2.generations = s.generations := by
  rw [report]
  cases s.generation? id with
  | none =>
      dsimp only
      split_ifs <;> rfl
  | some g =>
      dsimp only
      cases s.generations[g]? with
      | none => rfl
      | some x =>
          dsimp only
          split_ifs
          · rfl
          · rw [statusOf]
            split_ifs
            · rfl
            · split
              split_ifs <;> rfl

structure Spared (s : Supervisor) (st : Stake) (g : Nat) : Prop where
  isOver : s.Over g
  inactive : ∀ id, (id, g) ∉ s.active
  untended : g ∉ st.tended

namespace Spared

variable {st st' : Stake} {id : PipelineId}

theorem keep (h : s.Spared st g) (hover : s'.Over g) (hactive : s'.active ⊆ s.active)
    (htended : st'.tended ⊆ st.tended) : s'.Spared st' g :=
  ⟨hover, fun id hid => h.inactive id (hactive hid), fun hg => h.untended (htended hg)⟩

theorem refuse (h : s.Spared st g) (id : PipelineId) (e : Error) :
    (s.refuse id e).Leads fun s' st' => s'.Spared st' g :=
  h.keep (h.isOver.of_generations rfl) (List.Subset.refl _) (by simp)

theorem markStarting (h : s.Spared .nothing g) (id : PipelineId) (o : StartOptions) :
    (s.markStarting id o).Leads fun s' st' => s'.Spared st' g := by
  have hmark : Spared { s with starting := s.starting ++ [id] } (.marked id) g :=
    h.keep (h.isOver.of_generations rfl) (List.Subset.refl _) (by simp)
  rw [Supervisor.markStarting]
  split_ifs
  · exact h
  · dsimp only
    split
    · exact hmark.refuse id _
    · exact hmark

theorem takeOut (h : s.Spared st g) (hmem : (id, g') ∈ s.active) (htended : st'.tended ⊆ [g']) :
    ((s.deactivate id).cancel g').Spared st' g where
  isOver := Over.cancel (h.isOver.of_generations rfl) g'
  inactive id' hid := h.inactive id' (List.mem_of_mem_filter hid)
  untended hg := by
    obtain rfl := List.mem_singleton.mp (htended hg)
    exact h.inactive id hmem

theorem inspect (h : s.Spared (.inspecting id g') g) (o : StartOptions) :
    (s.inspect id o g').Leads fun s' st' => s'.Spared st' g := by
  have hgenerations : (s.anyAlive g').2.generations = s.generations := by
    rw [anyAlive]
    cases s.generations[g']? <;> rfl
  have hactive : (s.anyAlive g').2.active = s.active := (Quiet.anyAlive s g').active
  rw [Supervisor.inspect]
  split
  rename_i alive s₁ heq
  rw [heq] at hgenerations hactive
  have hfree : Spared { s₁ with activeHeld := false } (.marked id) g :=
    h.keep (h.isOver.of_generations hgenerations) (fun _ hmem => hactive ▸ hmem) (by simp)
  dsimp only
  split_ifs
  · exact hfree.refuse id _
  · exact hfree.keep (Over.cancel (hfree.isOver.of_generations rfl) g') (List.filter_subset_self _)
      (by simp [Call.stake])

theorem launch (h : s.Spared (.cleared id) g) (env : Surroundings) (o : StartOptions) (graph : Graph)
    (warnings : List String) (p : Plan) :
    (Supervisor.launch env s id o graph warnings p).Leads fun s' st' => s'.Spared st' g := by
  obtain ⟨x, hx, hover⟩ := h.isOver
  have hlt : g < s.generations.length := (List.getElem?_eq_some_iff.mp hx).1
  rw [Supervisor.launch]
  dsimp only
  split
  · rename_i e ms s' hspawn
    obtain ⟨hgrown, hgenerations, -⟩ := spawnAll_spec hspawn
    refine h.keep ?_ (fun _ hmem => hgrown.active ▸ hmem) (by simp [Call.stake, Stake.tended])
    exact ⟨x, by rw [hgenerations]; exact hx, hover⟩
  · rename_i ms s' hspawn
    obtain ⟨hgrown, hgenerations, -⟩ := spawnAll_spec hspawn
    replace hgenerations : s'.generations = s.generations := hgenerations
    refine ⟨⟨x, ?_, hover⟩, fun id' hid => h.inactive id' (hgrown.active ▸ hid), fun hg => ?_⟩
    · show (s'.generations ++ [_])[g]? = some x
      rw [hgenerations, List.getElem?_append_left hlt, hx]
    · -- the generation of the start is a new one
      obtain rfl := List.mem_singleton.mp hg
      exact absurd (hgenerations ▸ hlt) (Nat.lt_irrefl _)

theorem stepStart (c : StartStage) (o : StartOptions) (env : Surroundings)
    (h : s.Spared (Call.start id o c).stake g) :
    (Supervisor.stepStart env s id o c).Leads fun s' st' => s'.Spared st' g := by
  cases c with
  | asked => exact markStarting h id o
  | marked =>
      rw [Supervisor.stepStart]
      split_ifs
      · trivial
      · cases s.generation? id with
        | none => exact h.keep h.isOver (List.Subset.refl _) (by simp [Call.stake])
        | some g' => exact h.keep (h.isOver.of_generations rfl) (List.Subset.refl _) (by simp [Call.stake])
  | inspecting g' =>
      rw [Supervisor.stepStart]
      split
      · split_ifs
        · trivial
        · exact inspect h o
      · exact inspect h o
  | fetching =>
      rw [Supervisor.stepStart]
      split
      · exact h.refuse id _
      · exact h
  | validating graph =>
      rw [Supervisor.stepStart, validateAndLaunch]
      split
      · exact h.refuse id _
      · split
        · exact h.refuse id _
        · exact launch h env o graph _ _
  | unwinding t e =>
      rw [Supervisor.stepStart]
      split
      · trivial
      · rename_i t' s' hnext
        obtain ⟨ps, rfl⟩ := eq_of_next_later hnext
        exact h.keep (h.isOver.of_generations rfl) (List.Subset.refl _) (by simp [Call.stake, Stake.tended])
      · rename_i s' hnext
        obtain ⟨rfl, -⟩ := Teardown.next_finished hnext
        have hfailed : Spared (s'.setRegistry (s'.registry.fail id ("Failed to start pipeline: " ++ e.message)).2)
            (.marked id) g := h.keep (h.isOver.of_generations rfl) (List.Subset.refl _) (by simp)
        exact hfailed.refuse id e
  | enlisting g' r =>
      rw [Supervisor.stepStart]
      split_ifs
      · trivial
      · refine ⟨?_, fun id' hid => ?_, by simp⟩
        · have hstarted : (s.modifyGeneration g' fun x => { x with startedAt := s.now }).Over g :=
            h.isOver.modifyGeneration g' fun _ => rfl
          exact hstarted.of_generations rfl
        · rcases List.mem_append.mp hid with hid | hid
          · exact h.inactive id' (List.mem_of_mem_filter hid)
          · obtain ⟨-, rfl⟩ := Prod.mk.inj (List.mem_singleton.mp hid)
            exact h.untended (List.mem_singleton.mpr rfl)

/-! A call that ends generations goes on with those that it has in its hands. -/

theorem stepTakedown (h : s.Spared st g) {t : Takedown} {t' : Option Takedown}
    (hstep : s.stepTakedown g' t = some (t', s')) (htended : st'.tended ⊆ st.tended) : s'.Spared st' g := by
  obtain ⟨ps, rfl⟩ | ⟨held, rfl⟩ := stepTakedown_cases hstep
  · exact h.keep (h.isOver.of_generations rfl) (List.Subset.refl _) htended
  · exact h.keep (h.isOver.setHeld g' held) (List.Subset.refl _) htended

theorem concludeAbort (h : s.Spared .nothing g) (id : PipelineId) (moved : Bool) :
    (s.concludeAbort id moved).2.Spared .nothing g := by
  rw [Supervisor.concludeAbort]
  split_ifs
  · exact h.keep (h.isOver.of_generations rfl) (List.Subset.refl _) (List.Subset.refl _)
  · exact h

theorem stepStop (c : StopStage) (h : s.Spared (Call.stop id c).stake g) :
    (s.stepStop id c).Leads fun s' st' => s'.Spared st' g := by
  cases c with
  | asked =>
      rw [Supervisor.stepStop]
      split_ifs
      · trivial
      · cases hactive : s.generation? id with
        | none => exact h
        | some g' => exact h.takeOut (mem_active_of_generation? hactive) (by simp [Call.stake, Stake.tended])
  | ending g' t =>
      rw [Supervisor.stepStop]
      split
      · trivial
      · rename_i t' s' hstep
        exact h.stepTakedown hstep (by simp [Call.stake, Stake.tended])
      · rename_i s' hstep
        have hended : s'.Spared .nothing g := h.stepTakedown hstep (by simp)
        dsimp only [concludeStop]
        split_ifs <;> exact hended.keep (hended.isOver.of_generations rfl) (List.Subset.refl _) (List.Subset.refl _)

theorem stepAbort (c : AbortStage) (h : s.Spared (Call.abort id c).stake g) :
    (s.stepAbort id c).Leads fun s' st' => s'.Spared st' g := by
  cases c with
  | asked => exact h.keep (h.isOver.of_generations rfl) (List.Subset.refl _) (by simp [Call.stake])
  | marked moved =>
      rw [Supervisor.stepAbort]
      split_ifs
      · trivial
      · cases hactive : s.generation? id with
        | some g' => exact h.takeOut (mem_active_of_generation? hactive) (by simp [Call.stake, Stake.tended])
        | none =>
            dsimp only
            split
            · exact h
            · exact concludeAbort h id moved
  | ending moved g' t =>
      rw [Supervisor.stepAbort]
      split
      · trivial
      · rename_i t' s' hstep
        exact h.stepTakedown hstep (by simp [Call.stake, Stake.tended])
      · rename_i s' hstep
        exact concludeAbort (h.stepTakedown hstep (by simp)) id moved

theorem stepShutdownAll (c : ShutdownStage) (h : s.Spared (Call.shutdownAll c).stake g) :
    (s.stepShutdownAll c).Leads fun s' st' => s'.Spared st' g := by
  cases c with
  | asked =>
      rw [Supervisor.stepShutdownAll]
      split_ifs
      · trivial
      · split
        · exact h
        · rename_i id g' rest hactive
          refine ⟨Over.cancel (h.isOver.of_generations rfl) g', by simp [cancel, modifyGeneration], fun hg => ?_⟩
          have htended : g ∈ s.active.map (·.2) := by
            rw [hactive]
            simpa [Call.stake, Stake.tended] using hg
          obtain ⟨⟨id', g''⟩, hmem, rfl⟩ := List.mem_map.mp htended
          exact h.inactive id' hmem
  | ending runs t =>
      cases runs with
      | nil => exact h
      | cons run rest =>
          obtain ⟨id', g'⟩ := run
          rw [Supervisor.stepShutdownAll]
          split
          · trivial
          · rename_i t' s' hstep
            exact h.stepTakedown hstep (by simp [Call.stake, Stake.tended])
          · rename_i s' hstep
            cases rest with
            | nil =>
                have hended : s'.Spared .nothing g := h.stepTakedown hstep (by simp)
                exact hended.keep (hended.isOver.of_generations rfl) (List.Subset.refl _) (List.Subset.refl _)
            | cons next rest =>
                have hended : s'.Spared (Call.shutdownAll (.ending (next :: rest) .joining)).stake g :=
                  h.stepTakedown hstep (by simp [Call.stake, Stake.tended])
                exact hended.keep (Over.cancel (hended.isOver.of_generations rfl) _) (List.Subset.refl _)
                  (List.Subset.refl _)

/-- No step of a call takes a generation into the hands of the call that is over and not active. -/
theorem step (env : Surroundings) (c : Call) (h : s.Spared c.stake g) :
    (s.step env c).Leads fun s' st' => s'.Spared st' g := by
  cases c with
  | start id o stage => exact stepStart stage o env h
  | stop id stage => exact stepStop stage h
  | abort id stage => exact stepAbort stage h
  | shutdownAll stage => exact stepShutdownAll stage h
  | status id run =>
      rw [Supervisor.step]
      cases run with
      | none => exact h
      | some run =>
          rw [Supervisor.stepStatus]
          split_ifs
          · trivial
          · have hactive := (Quiet.report s id run).active
            exact h.keep (h.isOver.of_generations (generations_report s id run)) (fun _ hmem => hactive ▸ hmem)
              (List.Subset.refl _)

end Spared

end Supervisor

end Pipeworks
