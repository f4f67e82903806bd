import Pipeworks.Proofs.Supervisor.ThreadOwnership

/-!
Whose processes are whose when calls run on threads of their own. A process that a start has started is in the hands of
that start until it belongs to its generation, and whoever shuts down processes shuts down its own, at every point of
every interleaving.
-/

namespace Pipeworks

namespace Supervisor

variable {env : Surroundings} {s s' : Supervisor} {spec : WorkerSpec} {others : List Stake} {id : PipelineId}
  {ms : List Member} {m : Member}

theorem Allotted.spawn (h : s.Allotted (.unwinding id (Teardown.ofMembers ms) :: others))
    (hspawn : s.spawn env spec = (.ok m, s')) :
    s'.Allotted (.unwinding id (Teardown.ofMembers (ms ++ [m])) :: others) := by
  have hall := spawnAll_of_ok hspawn ms
  obtain ⟨-, hgenerations, -⟩ := spawnAll_spec hall
  obtain ⟨new, ps, hnew, hps, hnumbers, -, -⟩ := spawnAll_members hall
  obtain rfl := List.append_cancel_left hnew
  have hcount : s'.processes.length - s.processes.length = ps.length := by
    rw [hps, List.length_append]
    exact Nat.add_sub_cancel_left _ _
  have hlength : s.processes.length ≤ s'.processes.length := by
    rw [hps, List.length_append]
    exact Nat.le_add_right _ _
  refine h.rebook ((cores_of_generations hgenerations).trans (List.append_nil _).symm) trivial hlength (by simp) ?_
  rw [hcount, ← hnumbers]
  refine (shutdownOrder_perm (ms ++ [m])).trans ?_
  rw [List.map_append]
  exact (shutdownOrder_perm ms).symm.append_right _

theorem Allotted.enrol {x : Generation} (h : s.Allotted (.unwinding id (Teardown.ofMembers x.members) :: others))
    (hfresh : x.monitor = .fresh) (g : Nat) : (s.enrol x).Allotted (.enlisting id g :: others) := by
  refine h.rebook (cores_enrol s x) trivial (le_refl _) (fun y hy => ?_) ?_
  · obtain rfl := List.mem_singleton.mp hy
    change x.monitor.teardown? = none
    rw [hfresh]
    rfl
  · rw [processes_enrol, Nat.sub_self, List.range'_zero, List.append_nil, List.flatMap_singleton, Stake.leftover_enlisting,
      List.append_nil]
    exact (shutdownOrder_perm x.members).symm

end Supervisor

namespace Thread

variable {env : Surroundings} {s s' : Supervisor} {t t' : Thread} {others : List Stake}

theorem Does.allotted (h : Does env s t t' s') (hs : s.Allotted (t.stake :: others)) :
    s'.Allotted (t'.stake :: others) := by
  cases h with
  | later _ hstep => exact Supervisor.Effect.allotted (effect_of_does hstep) hs
  | answers _ hstep => exact Supervisor.Effect.allotted (effect_of_does hstep) hs
  | @joined id moved g u _ hstep =>
      have heffect : Supervisor.Effect s (.abort id (.ending false g u)) s' none := Supervisor.effect_concludeAbort hstep
      exact hs.keep (Supervisor.cores_stepTakedown hstep) heffect.length_le (List.nil_sublist _) trivial
  | @concludes id moved =>
      have hquiet := Supervisor.quiet_concludeAbort s id moved
      refine hs.keep ?_ hquiet.length_processes.ge (List.nil_sublist _) trivial
      rw [Supervisor.concludeAbort]
      split_ifs <;> rfl
  | @alive id o g =>
      have hlooks := Supervisor.Looks.anyAlive s g
      exact hs.keep (Supervisor.cores_of_generations hlooks.generations) hlooks.aged.length_eq.ge (List.nil_sublist _)
        trivial
  | @dead id o g _ =>
      have hlooks := Supervisor.Looks.anyAlive s g
      have hcores := Supervisor.cores_of_generations hlooks.generations
      exact hs.keep ((Supervisor.cores_cancel _ _).trans hcores) hlooks.aged.length_eq.ge (List.nil_sublist _) trivial
  | spawns hspawn => exact Supervisor.Allotted.spawn hs hspawn
  | breaks hspawn =>
      have hall := Supervisor.spawnAll_of_error hspawn []
      obtain ⟨hgrown, hgenerations, -⟩ := Supervisor.spawnAll_spec hall
      exact hs.keep (Supervisor.cores_of_generations hgenerations) hgrown.length_le (List.Sublist.refl _) trivial
  | enrols _ hfresh => exact Supervisor.Allotted.enrol hs hfresh _
  | unwinds hnext =>
      have hquiet := Teardown.quiet_of_next_later hnext
      have hsub := Teardown.sublist_of_next_later hnext
      obtain ⟨ps, rfl⟩ := Supervisor.eq_of_next_later hnext
      exact hs.keep rfl hquiet.length_processes.ge hsub trivial
  | enters =>
      exact hs.keep (Supervisor.cores_modifyGeneration s _ fun _ => rfl) (le_refl _) (List.nil_sublist _) trivial
  | _ => exact hs.keep rfl (le_refl _) (List.nil_sublist _) trivial

end Thread

namespace Threads

variable {config : Config} {x x' : Threads} {m : Move}

theorem allotted_play (others : List Stake) (hx : x.supervisor.Allotted (x.threads.map Thread.stake ++ others))
    (hplay : x.play m = some x') : x'.supervisor.Allotted (x'.threads.map Thread.stake ++ others) := by
  cases m with
  | ask c =>
      rw [play] at hplay
      split_ifs at hplay with hnew
      obtain rfl := Option.some.inj hplay
      refine (Supervisor.allotted_nothing_cons.mpr hx).perm ?_
      rw [List.map_append, List.map_cons, List.map_nil, Thread.stake, Scene.stake_of_isNew hnew]
      exact (List.perm_append_singleton _ _).symm.append_right others
  | proceed k env =>
      obtain ⟨t, t', ht, hstep, hthreads⟩ := proceed_eq_some hplay
      obtain ⟨hk, rfl⟩ := List.getElem?_eq_some_iff.mp ht
      have hown := hx.perm (((List.getElem_cons_eraseIdx_perm hk).symm.map Thread.stake).append_right others)
      rw [hthreads]
      exact ((Thread.does_step hstep).allotted hown).perm
        (((List.set_perm_cons_eraseIdx hk t').symm.map Thread.stake).append_right others)
  | giveUp k => cases hplay
  | watch g timerFirst =>
      obtain ⟨s, hs, rfl⟩ := Option.map_eq_some_iff.mp hplay
      exact hx.stepMonitor hs
  | pass time =>
      obtain rfl := Option.some.inj hplay
      exact hx.quiet (.pass _ _) hx.watched
  | signal process number =>
      obtain rfl := Option.some.inj hplay
      exact hx.quiet (.signal _ _ _) hx.watched
  | ingest e =>
      obtain rfl := Option.some.inj hplay
      exact hx.quiet (.ingest _ _) hx.watched

theorem Reachable.allotted (h : Reachable config x) : x.supervisor.Allotted (x.threads.map Thread.stake) := by
  have hleads := Leads.invariant (I := fun x => x.supervisor.Allotted (x.threads.map Thread.stake ++ []))
    (fun _ _ _ _ hx hplay => allotted_play [] hx hplay) h
    ⟨List.nodup_nil, fun _ hi => absurd hi List.not_mem_nil, fun _ hx => absurd hx List.not_mem_nil,
      fun _ hst => absurd hst List.not_mem_nil⟩
  rwa [List.append_nil] at hleads

end Threads

end Pipeworks
