import Pipeworks.Proofs.Supervisor.ThreadHoldings

/-!
What a start leaves that its caller gives up. Its mark and its lock are given back, and the processes that it has in its
own hands are killed. But from the moment in which it has made its generation, the processes are in the hands of the
monitor, which knows nothing of the caller: a start that is given up before it has entered the generation leaves it
adrift, with nobody who could end it. In the invariant of ownership an adrift generation stands as one that somebody is
to end, and never does.
-/

namespace Pipeworks

def StartStage.unentered (id : PipelineId) : StartStage → List (PipelineId × Nat)
  | enlisting g _ => [(id, g)]
  | _ => []

namespace Stake

/-- The stake of nobody: a generation that is not active, and that no call looks after. -/
def adrift (run : PipelineId × Nat) : Stake := ending [(run.1, run.2, .joining)]

@[simp] theorem mark?_adrift (run : PipelineId × Nat) : (adrift run).mark? = none := rfl

@[simp] theorem leftover_adrift (run : PipelineId × Nat) : (adrift run).leftover = [] := rfl

end Stake

namespace Supervisor

variable {s : Supervisor} {others : List Stake} {id : PipelineId} {g i : Nat}

/-! ### Processes that are killed -/

theorem killAll_cons (s : Supervisor) (i : Nat) (is : List Nat) :
    s.killAll (i :: is) = (s.signal i Signal.kill).killAll is := rfl

theorem Quiet.killAll (s : Supervisor) (is : List Nat) : s.Quiet (s.killAll is) := by
  induction is generalizing s with
  | nil => exact .refl s
  | cons i is ih => exact (Quiet.signal s i Signal.kill).trans (ih _)

theorem gone_signal_kill (hi : i < s.processes.length) : (s.signal i Signal.kill).Gone i := by
  obtain ⟨p, hp⟩ : ∃ p, s.processes[i]? = some p := ⟨_, List.getElem?_eq_getElem hi⟩
  refine ⟨p.receive s.now Signal.kill, ?_, ?_⟩
  · change (s.processes.modify i _)[i]? = _
    rw [List.getElem?_modify, hp, Option.map_eq_map, Option.map_some, if_pos rfl]
  · change (p.child.receive s.now Signal.kill).status? s.now ≠ none
    cases hstatus : p.child.status? s.now with
    | none =>
        rw [Child.status?_receive_of_heeds Child.heeds_kill hstatus]
        exact Option.some_ne_none _
    | some e =>
        rw [Child.status?_receive Signal.kill hstatus]
        exact Option.some_ne_none e

theorem gone_killAll {is : List Nat} (hi : i ∈ is) (hlt : i < s.processes.length) : (s.killAll is).Gone i := by
  induction is generalizing s with
  | nil => exact absurd hi List.not_mem_nil
  | cons j is ih =>
      have hkilled : s.Quiet (s.signal j Signal.kill) := .signal s j Signal.kill
      rw [killAll_cons]
      rcases List.mem_cons.mp hi with rfl | hi
      · exact (Quiet.killAll _ is).gone (gone_signal_kill hlt)
      · exact ih hi (hkilled.length_processes.symm ▸ hlt)

/-! ### A start that is given up -/

theorem Ages.abandonStart (s : Supervisor) (id : PipelineId) (stage : StartStage) :
    s.Ages (s.abandonStart id stage) := by
  cases stage with
  | unwinding t e => exact (Ages.of_quiet (.killAll s t.processes)).trans (.of_aged (.refl _ _) rfl)
  | _ => exact .of_aged (.refl _ _) rfl

theorem cores_abandonStart (s : Supervisor) (id : PipelineId) (stage : StartStage) :
    (s.abandonStart id stage).cores = s.cores := by
  cases stage <;> rfl

theorem active_abandonStart (s : Supervisor) (id : PipelineId) (stage : StartStage) :
    (s.abandonStart id stage).active = s.active := by
  cases stage <;> rfl

/-- A start may leave its generation adrift. -/
theorem Sound.setAdrift (h : s.Sound (.enlisting id g :: others)) :
    s.Sound (.marked id :: .adrift (id, g) :: others) where
  honest := h.honest
  keys := h.keys
  known := h.known
  marks := h.marks
  starting := h.starting
  lock := h.lock
  fits st hst := by
    rcases List.mem_cons.mp hst with rfl | hst
    · trivial
    rcases List.mem_cons.mp hst with rfl | hst
    · intro r hr
      obtain rfl := List.mem_singleton.mp hr
      exact ⟨(h.fits _ List.mem_cons_self).2, trivial⟩
    · exact h.fits st (List.mem_cons_of_mem _ hst)
  bounded := h.bounded
  owned i hi := (h.owned i hi).imp_right (by simp)
  tended g' hg' := by
    refine (h.tended g' hg').imp_right ?_
    rintro ⟨st, hst, hmem⟩
    rcases List.mem_cons.mp hst with rfl | hst
    · exact ⟨.adrift (id, g), by simp, hmem⟩
    · exact ⟨st, by simp [hst], hmem⟩

/-- Whenever a start is given up, the invariant of ownership holds without it, but for its generation. -/
theorem Sound.abandonStart {o : StartOptions} {stage : StartStage}
    (h : s.Sound ((Call.start id o stage).stake :: others)) :
    (s.abandonStart id stage).Sound (.nothing :: ((stage.unentered id).map .adrift ++ others)) := by
  cases stage with
  | asked => exact h
  | marked => exact Sound.unmark h
  | inspecting g => exact (Sound.giveBack h).unmark
  | fetching => exact (Sound.marked_of_cleared h).unmark
  | validating graph => exact (Sound.marked_of_cleared h).unmark
  | unwinding t e =>
      -- no process that was killed is alive
      have hlet : (s.killAll t.processes).Sound (.marked id :: others) := by
        refine (Sound.quiet h (.killAll s t.processes)).swap rfl (fun hlock => hlock) trivial (fun i hi halive => ?_)
          fun g hg => absurd hg List.not_mem_nil
        have hlt : i < s.processes.length := by
          obtain ⟨p, hp, -⟩ := halive
          rw [← (Quiet.killAll s t.processes).length_processes]
          exact (List.getElem?_eq_some_iff.mp hp).1
        exact absurd halive (gone_killAll hi hlt).not_alive
      exact hlet.unmark
  | enlisting g r => exact (Sound.setAdrift h).unmark

theorem Allotted.abandonStart {o : StartOptions} {stage : StartStage}
    (h : s.Allotted ((Call.start id o stage).stake :: others)) :
    (s.abandonStart id stage).Allotted (.nothing :: ((stage.unentered id).map .adrift ++ others)) := by
  have hlength := (Ages.abandonStart s id stage).length_processes
  have hcores := cores_abandonStart s id stage
  have hlet (st : Stake) (hleftover : st.leftover = []) (hkeeps : s.Keeps st) :
      (s.abandonStart id stage).Allotted (st :: others) :=
    h.keep hcores hlength (hleftover ▸ List.nil_sublist _) hkeeps
  cases stage with
  | enlisting g r =>
      refine allotted_nothing_cons.mpr (hlet (.adrift (id, g)) rfl fun run hrun => ?_)
      obtain rfl := List.mem_singleton.mp hrun
      exact List.nil_subset _
  | _ => exact hlet .nothing rfl trivial

end Supervisor

end Pipeworks
